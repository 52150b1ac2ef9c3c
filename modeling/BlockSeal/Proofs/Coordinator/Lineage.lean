import BlockSeal.Proofs.Coordinator.Shutdown
import BlockSeal.Proofs.Sealer.Works

/-! # Work on the expected parent

A package is only of use together with the place in the chain that it was issued for. The sealer
keeps both in its candidate, and only a push that succeeds puts another candidate there.

* `pushed?`, `pushes`: the pushes that succeeded, told by the answers they got.
* `current_operate`, `current_run`: the candidate is that of the latest push.
* `isClosed_run_iff`: a coordinator that was open is closed when one of its operations has shut it.
* `fetchWithLineage_eq_ok_iff`, `fetchWithLineage_of_parent_ne`, `fetchWithLineage_of_number_ne`: the
  answer for the candidate of the moment.
* `fetchWithLineage_run`: what is answered after any operations.
-/

set_option autoImplicit false

namespace BlockSeal

/-- Only a push that succeeds changes the candidate. -/
theorem Sealer.current_react (s : Sealer) (event : Event) :
    (s.react event).current = ((s.pushed? event).map Push.candidate).or s.current := by
  cases hpushed : s.pushed? event with
  | none => exact (react_keepsWorks hpushed).current
  | some p =>
    obtain ⟨rfl, hok⟩ := pushed?_eq_some hpushed
    exact (pushWork_of_ok hok).2.1

/-- The place in the chain that the candidate's work is issued for. -/
def Candidate.lineage (candidate : Candidate) : Lineage where
  parentHash := candidate.block.header.parentHash
  number := candidate.block.number

namespace Coordinator

variable {c : Coordinator}

/-! ## Asking for the work -/

/-- To ask for the work changes nothing. -/
theorem request_fetchWork (hopen : c.isClosed = false) :
    c.request .fetchWork = (c.sealer.offer, c) := by
  obtain ⟨sealer, isClosed⟩ := c
  cases hopen
  simp only [Coordinator.request, Bool.false_eq_true, if_false, Sealer.handle]
  cases sealer.offer <;> rfl

/-! ## The latest push -/

/-- The push that an operation is, if it is one and succeeds. -/
def pushed? (c : Coordinator) : Operation → Option Sealer.Push
  | .event (.request ⟨_, .pushWork block sink⟩) =>
    (c.pushWork block sink).1.toOption.map fun work =>
      { block := block, sink := sink, work := work }
  | _ => none

/-- The pushes that succeed in a run, in turn. -/
def pushes (c : Coordinator) : List Operation → List Sealer.Push
  | [] => []
  | operation :: operations =>
    (c.pushed? operation).toList ++ (c.operate operation).pushes operations

theorem pushed?_of_open (hopen : c.isClosed = false) (event : Sealer.Event) :
    c.pushed? (.event event) = c.sealer.pushed? event := by
  cases event with
  | request request =>
    obtain ⟨α, request⟩ := request
    cases request with
    | pushWork block sink =>
      have hanswer := (request_of_open hopen (.pushWork block sink)).2.1
      exact congrArg (Option.map _) hanswer
    | _ => rfl
  | _ => rfl

theorem pushed?_of_isClosed (h : c.isClosed = true) (operation : Operation) :
    c.pushed? operation = none := by
  cases operation with
  | close => rfl
  | event event =>
    cases event with
    | request request =>
      obtain ⟨α, request⟩ := request
      cases request with
      | pushWork block sink =>
        simp only [pushed?, Coordinator.pushWork, request_of_isClosed h, Except.toOption,
          Option.map_none]
      | _ => rfl
    | _ => rfl

/-- **One operation.** -/
theorem current_operate (c : Coordinator) (operation : Operation) :
    (c.operate operation).sealer.current =
      ((c.pushed? operation).map Sealer.Push.candidate).or c.sealer.current := by
  cases operation with
  | close => rfl
  | event event =>
    cases event with
    | request request =>
      cases hdoor : c.isClosed with
      | true =>
        rw [pushed?_of_isClosed hdoor, operate_of_isClosed hdoor rfl]
        rfl
      | false =>
        rw [pushed?_of_open hdoor, ← c.sealer.current_react]
        exact congrArg Sealer.current (request_of_open hdoor request.2).1
    -- Past the door nobody pushes, be it open or shut.
    | _ => exact c.sealer.current_react _

/-- **A run.** The candidate is that of the latest push, or the one there was before. -/
theorem current_run (c : Coordinator) (operations : List Operation) :
    (c.run operations).sealer.current =
      ((c.pushes operations).getLast?.map Sealer.Push.candidate).or c.sealer.current := by
  induction operations generalizing c with
  | nil => rfl
  | cons operation operations ih =>
    change ((c.operate operation).run operations).sealer.current = _
    rw [ih, current_operate, pushes, List.getLast?_append]
    -- A later push wins over the one of this operation, and that over the candidate before it.
    cases c.pushed? operation <;> cases ((c.operate operation).pushes operations).getLast? <;> rfl

/-! ## What has shut the door -/

theorem shuts_of_isClosed {operation : Operation} (hopen : c.isClosed = false)
    (h : (c.operate operation).isClosed = true) : c.Shuts operation := by
  cases operation with
  | close => trivial
  | event event =>
    cases event with
    | request request => exact ⟨hopen, (request_of_open hopen request.2).2.2.1 h⟩
    | _ => exact Bool.false_ne_true (hopen.symm.trans h)

theorem isClosed_run_iff (hopen : c.isClosed = false) {operations : List Operation} :
    (c.run operations).isClosed = true ↔ ∃ before shutting after,
      operations = before ++ shutting :: after ∧ (c.run before).Shuts shutting := by
  constructor
  · intro hclosed
    induction operations generalizing c with
    | nil => exact absurd (hopen.symm.trans hclosed) Bool.false_ne_true
    | cons operation operations ih =>
      cases hnext : (c.operate operation).isClosed with
      | true => exact ⟨[], operation, operations, rfl, shuts_of_isClosed hopen hnext⟩
      | false =>
        obtain ⟨before, shutting, after, rfl, hshuts⟩ := ih hnext hclosed
        exact ⟨operation :: before, shutting, after, rfl, hshuts⟩
  · rintro ⟨before, shutting, after, rfl, hshuts⟩
    rw [run, List.foldl_append]
    exact isClosed_run (operate_of_shuts hshuts).1 after

/-! ## The answer -/

variable {candidate : Candidate} {parent : Hash} {number : UInt64} {work : WorkPackage}

theorem checkLineage_eq_ok_iff (lineage : Lineage) :
    checkLineage lineage parent number = .ok () ↔
      number = 1 ∨ lineage.parentHash = parent ∧ lineage.number = number := by
  unfold checkLineage
  by_cases hone : number = 1
  · simp [hone]
  · by_cases hparent : lineage.parentHash = parent
    · by_cases hnumber : lineage.number = number <;> simp [hone, hparent, hnumber]
    · simp [hone, hparent]

theorem fetchWithLineage_of_none (hopen : c.isClosed = false) (h : c.sealer.current = none) :
    c.fetchWithLineage parent number = .error .noWork := by
  rw [fetchWithLineage, request_fetchWork hopen, Sealer.offer, h]
  rfl

theorem fetchWithLineage_of_some (hopen : c.isClosed = false)
    (h : c.sealer.current = some candidate) :
    c.fetchWithLineage parent number =
      (checkLineage candidate.lineage parent number).map fun _ => candidate.work := by
  rw [fetchWithLineage, request_fetchWork hopen, Sealer.offer, h]
  change (checkLineage candidate.lineage parent number).bind _ = _
  cases checkLineage candidate.lineage parent number <;> rfl

theorem fetchWithLineage_eq_ok_iff (hopen : c.isClosed = false) :
    c.fetchWithLineage parent number = .ok work ↔
      ∃ candidate, c.sealer.current = some candidate ∧ work = candidate.work ∧ (number = 1 ∨
        candidate.lineage.parentHash = parent ∧ candidate.lineage.number = number) := by
  cases hcurrent : c.sealer.current with
  | none =>
    rw [fetchWithLineage_of_none hopen hcurrent]
    simp
  | some candidate =>
    rw [fetchWithLineage_of_some hopen hcurrent]
    simp only [Option.some.injEq, exists_eq_left', ← checkLineage_eq_ok_iff]
    cases checkLineage candidate.lineage parent number with
    | error e => simp [Except.map]
    | ok u => simp [Except.map, eq_comm]

/-- The parent is looked at first. -/
theorem fetchWithLineage_of_parent_ne (hopen : c.isClosed = false)
    (h : c.sealer.current = some candidate) (hone : number ≠ 1)
    (hparent : candidate.lineage.parentHash ≠ parent) :
    c.fetchWithLineage parent number =
      .error (.parentMismatch candidate.lineage.parentHash parent) := by
  rw [fetchWithLineage_of_some hopen h, checkLineage, if_neg hone, if_pos hparent]
  rfl

theorem fetchWithLineage_of_number_ne (hopen : c.isClosed = false)
    (h : c.sealer.current = some candidate) (hone : number ≠ 1)
    (hparent : candidate.lineage.parentHash = parent)
    (hnumber : candidate.lineage.number ≠ number) : c.fetchWithLineage parent number =
      .error (.numberMismatch candidate.lineage.number number) := by
  rw [fetchWithLineage_of_some hopen h, checkLineage, if_neg hone, if_neg (not_not.2 hparent),
    if_pos hnumber]
  rfl

/-- **Work on the expected parent.** A coordinator starts open and afresh, and any operations follow.
While it is open, a package is handed out exactly when it is what the latest successful push returned
and that push's block has the expected parent and height; at height one nothing is expected. Otherwise
there was no push, or the parents differ, or only the heights do, and the error says so with what was
found and what was expected. It is closed only if one of the operations has shut it, and then the
answer is that it is stopped. Asking changes nothing. -/
theorem fetchWithLineage_run (hfresh : c.sealer.IsFresh) (hopen : c.isClosed = false)
    (operations : List Operation) (parent : Hash) (number : UInt64) :
    ((c.run operations).request .fetchWork).2 = c.run operations ∧
    ((c.run operations).isClosed = true ↔ ∃ before shutting after,
      operations = before ++ shutting :: after ∧ (c.run before).Shuts shutting) ∧
    ((c.run operations).isClosed = true →
      (c.run operations).fetchWithLineage parent number = .error .stopped) ∧
    ((c.run operations).isClosed = false →
      (∀ work, (c.run operations).fetchWithLineage parent number = .ok work ↔
        ∃ p, (c.pushes operations).getLast? = some p ∧ work = p.work ∧
          (number = 1 ∨ p.block.header.parentHash = parent ∧ p.block.number = number)) ∧
      (c.pushes operations = [] →
        (c.run operations).fetchWithLineage parent number = .error .noWork) ∧
      ∀ p, (c.pushes operations).getLast? = some p → number ≠ 1 →
        (p.block.header.parentHash ≠ parent →
          (c.run operations).fetchWithLineage parent number =
            .error (.parentMismatch p.block.header.parentHash parent)) ∧
        (p.block.header.parentHash = parent → p.block.number ≠ number →
          (c.run operations).fetchWithLineage parent number =
            .error (.numberMismatch p.block.number number))) := by
  have hcurrent : (c.run operations).sealer.current =
      (c.pushes operations).getLast?.map Sealer.Push.candidate := by
    rw [current_run, hfresh.current, Option.or_none]
  refine ⟨?_, isClosed_run_iff hopen, ?_, ?_⟩
  · cases hdoor : (c.run operations).isClosed with
    | true => rw [request_of_isClosed hdoor]
    | false => rw [request_fetchWork hdoor]
  · intro hclosed
    exact (isShut_of_isClosed hclosed).fetchWithLineage parent number
  · intro hdoor
    refine ⟨fun work => ?_, fun hnone => ?_, fun p hlatest hone => ?_⟩
    · rw [fetchWithLineage_eq_ok_iff hdoor, hcurrent]
      constructor
      · rintro ⟨candidate, hcandidate, hanswer⟩
        obtain ⟨p, hlatest, rfl⟩ := Option.map_eq_some_iff.1 hcandidate
        exact ⟨p, hlatest, hanswer⟩
      · rintro ⟨p, hlatest, hanswer⟩
        exact ⟨p.candidate, Option.map_eq_some_iff.2 ⟨p, hlatest, rfl⟩, hanswer⟩
    · rw [hnone] at hcurrent
      exact fetchWithLineage_of_none hdoor hcurrent
    · have hcandidate : (c.run operations).sealer.current = some p.candidate := by
        rw [hcurrent, hlatest]
        rfl
      exact ⟨fetchWithLineage_of_parent_ne hdoor hcandidate hone,
        fetchWithLineage_of_number_ne hdoor hcandidate hone⟩

end Coordinator

/-! ## A push that is refused -/

namespace Sample

def idle : Coordinator where
  sealer := {
    verifier := .pow fallow
    hashRate := { maxWorkers := 8, window := 10 }
    staleThreshold := 7 }

def pushOf (number difficulty : UInt64) : Coordinator.Operation :=
  let header : Header := { number := number, difficulty := difficulty }
  .event (.request ⟨_, .pushWork { header := header } "blocks"⟩)

/-- No work is issued without a difficulty, so the last push is refused. -/
def offered : List Coordinator.Operation := [
  pushOf 4 1,
  pushOf 5 1,
  .event (.request ⟨_, .reportRate Octets.zero 7⟩),
  pushOf 6 0]

/-- The hash of no block here. -/
def elsewhere : Hash := Octets.replicate 32 7

end Sample

namespace Coordinator

/-- The package is that of the second push, and so are the parent and the height that it is checked
against. -/
theorem offered_fetched : Sample.idle.sealer.IsFresh ∧ Sample.idle.isClosed = false ∧
    ∃ p, (Sample.idle.pushes Sample.offered).getLast? = some p ∧ p.block.number = 5 ∧
      (Sample.idle.run Sample.offered).fetchWithLineage Octets.zero 5 = .ok p.work ∧
      (Sample.idle.run Sample.offered).fetchWithLineage Sample.elsewhere 1 = .ok p.work ∧
      (Sample.idle.run Sample.offered).fetchWithLineage Octets.zero 6 =
        .error (.numberMismatch 5 6) ∧
      (Sample.idle.run Sample.offered).fetchWithLineage Sample.elsewhere 6 =
        .error (.parentMismatch Octets.zero Sample.elsewhere) := by
  have hfresh : Sample.idle.sealer.IsFresh := ⟨rfl, rfl, rfl⟩
  have hanswers := fetchWithLineage_run hfresh rfl Sample.offered
  have hdoor : (Sample.idle.run Sample.offered).isClosed = false := rfl
  refine ⟨hfresh, rfl, _, rfl, rfl, ?_, ?_, ?_, ?_⟩
  · exact (((hanswers _ _).2.2.2 hdoor).1 _).2 ⟨_, rfl, rfl, .inr ⟨rfl, rfl⟩⟩
  · exact (((hanswers _ _).2.2.2 hdoor).1 _).2 ⟨_, rfl, rfl, .inl rfl⟩
  · exact (((hanswers _ _).2.2.2 hdoor).2.2 _ rfl (by decide)).2 rfl (by decide)
  · exact (((hanswers _ _).2.2.2 hdoor).2.2 _ rfl (by decide)).1 (by decide)

end Coordinator

end BlockSeal
