import BlockSeal.Sealer

/-! # What the sealer does with a request

* `pushWork_of_error`, `pushWork_of_ok`: a push that is refused changes nothing; one that succeeds
  puts the block, its work and its sink in the place of the earlier ones.
* `sink?_setSink_self`, `sink?_setSink_ne`: one queue changes, under one name.
* `deliver_of_error`, `deliver_of_ok`, `deliver_of_room`: a block that a sink refuses changes
  nothing; one that it takes, as it does when there is room, is the last that waits there.
* `submit_cases`: the ways a solution can go. `submit_of_error`, `submit_of_ok`, `submit_frame`: what
  becomes of the sealer. `submit_of_verified`: when the solution is accepted.
-/

set_option autoImplicit false

namespace BlockSeal.Sealer

/-! ## Pushes -/

theorem pushWork_of_error {s : Sealer} {block : Block} {sink : SinkName}
    (h : ∀ work, (s.pushWork block sink).1 ≠ .ok work) : (s.pushWork block sink).2 = s := by
  unfold pushWork at h ⊢
  split
  · rfl
  · rename_i work hwork
    simp only [hwork] at h
    exact absurd rfl (h work)

theorem pushWork_of_ok {s : Sealer} {block : Block} {sink : SinkName} {work : WorkPackage}
    (h : (s.pushWork block sink).1 = .ok work) :
    (s.pushWork block sink).2.verifier = s.verifier ∧
      (s.pushWork block sink).2.current = some { block := block, work := work } ∧
      (s.pushWork block sink).2.results = some sink ∧
      (s.pushWork block sink).2.sinks = s.sinks := by
  unfold pushWork at h ⊢
  split at h
  · cases h
  · rename_i issued hissued
    cases h
    exact ⟨rfl, rfl, rfl, rfl⟩

/-! ## Queues of sealed blocks -/

theorem find?_setSink (s : Sealer) (name other : SinkName) (queue : Queue Block) :
    (s.setSink name queue).sinks.find? (fun e => e.1 = other) =
      (s.sinks.find? fun e => e.1 = other).map fun e => if e.1 = name then (name, queue) else e := by
  rw [setSink, List.find?_map]
  congr 2
  funext e
  simp only [Function.comp_apply]
  split
  · rename_i h
    rw [h]
  · rfl

theorem sink?_setSink_self {s : Sealer} {name : SinkName} {queue old : Queue Block}
    (h : s.sink? name = some old) : (s.setSink name queue).sink? name = some queue := by
  obtain ⟨e, he, _⟩ := Option.map_eq_some_iff.1 h
  have hname : e.1 = name := by simpa using List.find?_some he
  rw [sink?, find?_setSink, he]
  simp only [Option.map_some, hname, if_true]

theorem sink?_setSink_ne {s : Sealer} {name other : SinkName} (h : other ≠ name)
    (queue : Queue Block) : (s.setSink name queue).sink? other = s.sink? other := by
  rw [sink?, sink?, find?_setSink]
  cases he : s.sinks.find? fun e => e.1 = other with
  | none => rfl
  | some e =>
    have hother : e.1 = other := by simpa using List.find?_some he
    simp only [Option.map_some, hother, h, if_false]

theorem deliver_of_error {s : Sealer} {block : Block} (h : (s.deliver block).1 ≠ .ok ()) :
    (s.deliver block).2 = s := by
  unfold deliver at h ⊢
  split
  · rfl
  · rename_i name hname
    simp only [hname] at h
    split
    · rfl
    · rename_i queue hqueue
      simp only [hqueue] at h
      exact absurd rfl h

theorem deliver_of_ok {s : Sealer} {block : Block} (h : (s.deliver block).1 = .ok ()) :
    ∃ name queue, s.results = some name ∧ s.sink? name = some queue ∧
      (s.deliver block).2 =
        s.setSink name { queue with waiting := queue.waiting ++ [block] } := by
  unfold deliver at h ⊢
  cases hresults : s.results with
  | none =>
    rw [hresults] at h
    cases h
  | some name =>
    cases hqueue : (s.sink? name).bind fun queue => queue.offer? block with
    | none =>
      simp only [hresults, hqueue] at h
      cases h
    | some after =>
      obtain ⟨queue, hsink, hoffer⟩ := Option.bind_eq_some_iff.1 hqueue
      obtain ⟨_, _, rfl⟩ := Queue.offer?_eq_some_iff.1 hoffer
      refine ⟨name, queue, rfl, hsink, ?_⟩
      simp only [hqueue]

theorem deliver_of_room {s : Sealer} {name : SinkName} {queue : Queue Block} (block : Block)
    (hresults : s.results = some name) (hsink : s.sink? name = some queue)
    (hread : queue.isRead = true) (hroom : queue.waiting.length < queue.capacity) :
    s.deliver block =
      (.ok (), s.setSink name { queue with waiting := queue.waiting ++ [block] }) := by
  have hoffer : queue.offer? block = some { queue with waiting := queue.waiting ++ [block] } :=
    Queue.offer?_eq_some_iff.2 ⟨hread, hroom, rfl⟩
  simp only [deliver, hresults, hsink, Option.bind_some, hoffer]

/-! ## Solutions -/

theorem handle_submitWork (s : Sealer) (submission : Submission) :
    s.handle (.submitWork submission) = s.submit submission := rfl

/-- What can become of a solution: it is refused without being looked at, its verification fails, or
it is handed on to the sink. -/
theorem submit_cases (s : Sealer) (submission : Submission) :
    (∃ e, s.submit submission = (.error (.refused e), s)) ∨
    ∃ c header, s.current = some c ∧ submission.sealHash = c.work.sealHash ∧
      s.verifier.applySubmission c.block.header submission = .ok header ∧
      ((∃ e, (s.verifier.verify header).1 = .error e ∧
        s.submit submission =
          (.error e, { s with verifier := (s.verifier.verify header).2 })) ∨
      ((s.verifier.verify header).1 = .ok () ∧
        s.submit submission =
          (Failure.lift (deliver { s with verifier := (s.verifier.verify header).2 }
              (c.block.withSeal header)).1,
            (deliver { s with verifier := (s.verifier.verify header).2 }
              (c.block.withSeal header)).2))) := by
  unfold submit
  split
  · exact .inl ⟨_, rfl⟩
  rename_i c hcurrent
  split
  · exact .inl ⟨_, rfl⟩
  rename_i hissued
  split
  · exact .inl ⟨_, rfl⟩
  rename_i header happlied
  refine .inr ⟨c, header, hcurrent, Decidable.not_not.1 hissued, happlied, ?_⟩
  cases s.verifier.verify header with
  | mk result verifier =>
    cases result with
    | error e => exact .inl ⟨e, rfl, rfl⟩
    | ok u => exact .inr ⟨rfl, rfl⟩

/-- Nothing becomes of a solution that is refused, but its verification may use the verifier. -/
theorem submit_of_error {s : Sealer} {submission : Submission}
    (h : (s.submit submission).1 ≠ .ok ()) :
    (s.submit submission).2 = s ∨
      ∃ header, (s.submit submission).2 = { s with verifier := (s.verifier.verify header).2 } := by
  rcases s.submit_cases submission with
    ⟨e, hs⟩ | ⟨c, header, _, _, _, ⟨e, _, hs⟩ | ⟨_, hs⟩⟩
  · left
    rw [hs]
  · right
    exact ⟨header, by rw [hs]⟩
  · right
    refine ⟨header, ?_⟩
    rw [hs] at h ⊢
    exact deliver_of_error fun hok => h (Failure.lift_eq_ok_iff.2 hok)

/-- An accepted solution fits the candidate's work, makes an acceptable header of the candidate's,
and the candidate with that header goes to the sink of the moment. -/
theorem submit_of_ok {s : Sealer} {submission : Submission}
    (h : (s.submit submission).1 = .ok ()) :
    ∃ c header name queue, s.current = some c ∧ s.results = some name ∧
      s.sink? name = some queue ∧ submission.sealHash = c.work.sealHash ∧
      s.verifier.applySubmission c.block.header submission = .ok header ∧
      (s.verifier.verify header).1 = .ok () ∧
      (s.submit submission).2 =
        setSink { s with verifier := (s.verifier.verify header).2 } name
          { queue with waiting := queue.waiting ++ [c.block.withSeal header] } := by
  rcases s.submit_cases submission with
    ⟨e, hs⟩ | ⟨c, header, hcurrent, hhash, happlied, ⟨e, _, hs⟩ | ⟨hverify, hs⟩⟩
  · rw [hs] at h
    cases h
  · rw [hs] at h
    cases h
  · rw [hs] at h
    obtain ⟨name, queue, hresults, hsink, hdeliver⟩ := deliver_of_ok (Failure.lift_eq_ok_iff.1 h)
    refine ⟨c, header, name, queue, hcurrent, hresults, hsink, hhash, happlied, hverify, ?_⟩
    rw [hs, ← hdeliver]

/-- Whatever becomes of a solution, the verifier has verified one header at most, and nothing else
than it and the sinks can have changed. -/
theorem submit_frame (s : Sealer) (submission : Submission) :
    ∃ verifier sinks, (s.submit submission).2 = { s with verifier := verifier, sinks := sinks } ∧
      (verifier = s.verifier ∨ ∃ header, verifier = (s.verifier.verify header).2) := by
  by_cases hok : (s.submit submission).1 = .ok ()
  · obtain ⟨c, header, name, queue, _, _, _, _, _, _, hafter⟩ := submit_of_ok hok
    exact ⟨_, _, hafter, .inr ⟨header, rfl⟩⟩
  · rcases submit_of_error hok with hafter | ⟨header, hafter⟩
    · exact ⟨s.verifier, s.sinks, hafter, .inl rfl⟩
    · exact ⟨_, s.sinks, hafter, .inr ⟨header, rfl⟩⟩

/-- A solution of the candidate's work that passes verification is accepted if the sink takes the
block. -/
theorem submit_of_verified {s : Sealer} {submission : Submission} {c : Candidate} {header : Header}
    {name : SinkName} {queue : Queue Block} (hcurrent : s.current = some c)
    (hissued : submission.sealHash = c.work.sealHash)
    (happlied : s.verifier.applySubmission c.block.header submission = .ok header)
    (hverified : (s.verifier.verify header).1 = .ok ()) (hresults : s.results = some name)
    (hsink : s.sink? name = some queue) (hread : queue.isRead = true)
    (hroom : queue.waiting.length < queue.capacity) :
    s.submit submission = (.ok (), setSink { s with verifier := (s.verifier.verify header).2 } name
      { queue with waiting := queue.waiting ++ [c.block.withSeal header] }) := by
  have hdeliver : deliver { s with verifier := (s.verifier.verify header).2 }
      (c.block.withSeal header) = _ := deliver_of_room _ hresults hsink hread hroom
  unfold submit
  simp only [hcurrent, hissued, ne_eq, not_true_eq_false, if_false, happlied]
  cases hv : s.verifier.verify header with
  | mk result verifier =>
    rw [hv] at hverified hdeliver
    change result = .ok () at hverified
    simp only [hverified]
    rw [← hcurrent, hdeliver]
    rfl

end BlockSeal.Sealer
