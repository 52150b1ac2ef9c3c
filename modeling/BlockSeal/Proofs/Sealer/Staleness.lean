import BlockSeal.Proofs.Pow.Target
import BlockSeal.Proofs.Sealer.Works

/-! # Solutions of earlier works

A solution of a work other than the candidate's is refused, in one of two ways: the work is known to
have been issued, or it is not known, be it that it never was issued or that it is forgotten. Which
of the two it is depends on the pushes alone.

* `watchPushes`: the pushes that succeed in a run.
* `Remembered`: a push that no later push has made the sealer forget.
* `Traces`: the candidate and the issued works, as the pushes leave them. One event keeps this
  (`Traces.react`), and so do many.
* `watch_stale_iff`: how a solution of an earlier work is refused after any events.
-/

set_option autoImplicit false

namespace BlockSeal

namespace Sealer

/-! ## The pushes of a run -/

/-- The pushes that succeed among events in turn, in order, and what becomes of the sealer. -/
def watchPushes (events : List Event) (start : List Push × Sealer) : List Push × Sealer :=
  events.foldl (fun now event => (now.1 ++ (now.2.pushed? event).toList, now.2.react event)) start

variable {s₀ s s' : Sealer} {pushes : List Push} {p q : Push} {threshold : UInt64}
  {submission : Submission}

theorem pushed?_event_of_workPackage (h : s.verifier.workPackage p.block.header = .ok p.work) :
    s.pushed? p.event = some p := by
  rw [Push.event, pushed?_pushWork, pushWork, h]
  rfl

/-! ## The pushes that are remembered -/

/-- The push `p` is one of `pushes`, and no later one has the seal hash of its work or a height that
`p` is behind by the stale threshold. -/
def Remembered (threshold : UInt64) (pushes : List Push) (p : Push) : Prop :=
  ∃ before after, pushes = before ++ p :: after ∧ ∀ later ∈ after,
    later.work.sealHash ≠ p.work.sealHash ∧
      later.block.number < p.block.number.addCapped threshold

theorem remembered_concat_iff : Remembered threshold (pushes ++ [q]) p ↔
    p = q ∨ Remembered threshold pushes p ∧ q.work.sealHash ≠ p.work.sealHash ∧
      q.block.number < p.block.number.addCapped threshold := by
  constructor
  · rintro ⟨before, after, hpushes, hlater⟩
    rcases after.eq_nil_or_concat with rfl | ⟨after, last, rfl⟩
    · have hlast := List.append_inj' hpushes rfl
      exact .inl (List.cons_eq_cons.1 hlast.2).1.symm
    · rw [List.concat_eq_append, ← List.cons_append, ← List.append_assoc] at hpushes
      obtain ⟨hbefore, hlast⟩ := List.append_inj' hpushes rfl
      obtain rfl : q = last := (List.cons_eq_cons.1 hlast).1
      have hq := hlater q (by simp)
      refine .inr ⟨⟨before, after, hbefore, fun later hmem => hlater later ?_⟩, hq⟩
      simp [hmem]
  · rintro (rfl | ⟨⟨before, after, rfl, hlater⟩, hq⟩)
    · exact ⟨pushes, [], rfl, nofun⟩
    · refine ⟨before, after ++ [q], by simp, ?_⟩
      intro later hmem
      rcases List.mem_append.1 hmem with hmem | hmem
      · exact hlater later hmem
      · obtain rfl := List.mem_singleton.1 hmem
        exact hq

/-! ## As the pushes leave it -/

/-- The sealer after a run from `s₀` in which `pushes` succeeded. -/
structure Traces (s₀ : Sealer) (pushes : List Push) (s : Sealer) : Prop where
  staleThreshold : s.staleThreshold = s₀.staleThreshold
  verifier : s.verifier.Agrees s₀.verifier
  current : s.current = pushes.getLast?.map Push.candidate
  works : ∀ e, e ∈ s.works ↔
    ∃ p, Remembered s₀.staleThreshold pushes p ∧ e = (p.work.sealHash, p.block)
  issued : ∀ p ∈ pushes, s₀.verifier.workPackage p.block.header = .ok p.work

theorem IsFresh.traces (h : s₀.IsFresh) : Traces s₀ [] s₀ where
  staleThreshold := rfl
  verifier := .refl _
  current := h.current
  works := by
    intro e
    rw [h.works]
    refine iff_of_false List.not_mem_nil ?_
    rintro ⟨p, ⟨before, after, hnil, -⟩, -⟩
    simp at hnil
  issued := nofun

namespace Traces

theorem of_keepsWorks (h : Traces s₀ pushes s) (hkeeps : s.KeepsWorks s') :
    Traces s₀ pushes s' where
  staleThreshold := hkeeps.staleThreshold.trans h.staleThreshold
  verifier := hkeeps.verifier.trans h.verifier
  current := hkeeps.current.trans h.current
  works := by
    rw [hkeeps.works]
    exact h.works
  issued := h.issued

theorem push (h : Traces s₀ pushes s) (hok : (s.pushWork q.block q.sink).1 = .ok q.work) :
    Traces s₀ (pushes ++ [q]) (s.pushWork q.block q.sink).2 := by
  obtain ⟨hwork, hthreshold, hworks⟩ := works_pushWork hok
  obtain ⟨hverifier, hcurrent, -, -⟩ := pushWork_of_ok hok
  constructor
  case staleThreshold => exact hthreshold.trans h.staleThreshold
  case verifier =>
    rw [hverifier]
    exact h.verifier
  case current =>
    rw [hcurrent, List.getLast?_concat]
    rfl
  case works =>
    intro e
    rw [hworks, h.staleThreshold, List.mem_cons, remembered, List.mem_filter, List.mem_filter,
      h.works]
    simp only [remembered_concat_iff, ne_eq, decide_eq_true_eq]
    constructor
    · rintro (rfl | ⟨⟨⟨p, hp, rfl⟩, hrecent⟩, hother⟩)
      · exact ⟨q, .inl rfl, rfl⟩
      · exact ⟨p, .inr ⟨hp, fun hsame => hother hsame.symm, hrecent⟩, rfl⟩
    · rintro ⟨p, rfl | ⟨hp, hother, hrecent⟩, rfl⟩
      · exact .inl rfl
      · exact .inr ⟨⟨⟨p, hp, rfl⟩, hrecent⟩, fun hsame => hother hsame.symm⟩
  case issued =>
    intro p hp
    rcases List.mem_append.1 hp with hp | hp
    · exact h.issued p hp
    · obtain rfl := List.mem_singleton.1 hp
      rw [← h.verifier.workPackage]
      exact hwork

/-- **One event.** -/
theorem react (h : Traces s₀ pushes s) (event : Event) :
    Traces s₀ (pushes ++ (s.pushed? event).toList) (s.react event) := by
  cases hpushed : s.pushed? event with
  | none =>
    rw [Option.toList_none, List.append_nil]
    exact h.of_keepsWorks (react_keepsWorks hpushed)
  | some q =>
    obtain ⟨rfl, hok⟩ := pushed?_eq_some hpushed
    exact h.push hok

/-- **Every run.** -/
theorem watchPushes (h : Traces s₀ pushes s) (events : List Event) :
    Traces s₀ (Sealer.watchPushes events (pushes, s)).1
      (Sealer.watchPushes events (pushes, s)).2 := by
  induction events generalizing pushes s with
  | nil => exact h
  | cons event events ih => exact ih (h.react event)

/-! ## Solutions -/

theorem isIssued_iff (h : Traces s₀ pushes s) {sealHash : Hash} :
    s.isIssued sealHash = true ↔
      ∃ p, Remembered s₀.staleThreshold pushes p ∧ p.work.sealHash = sealHash := by
  rw [isIssued, List.any_eq_true]
  simp only [decide_eq_true_eq, h.works]
  constructor
  · rintro ⟨e, ⟨p, hp, rfl⟩, hsame⟩
    exact ⟨p, hp, hsame⟩
  · rintro ⟨p, hp, hsame⟩
    exact ⟨_, ⟨p, hp, rfl⟩, hsame⟩

theorem submit_of_nil (h : Traces s₀ [] s) (submission : Submission) :
    s.submit submission = (.error (.refused .noWork), s) := by
  have hcurrent : s.current = none := h.current
  simp only [submit, hcurrent]

theorem submit_of_ne (h : Traces s₀ pushes s) (hlatest : pushes.getLast? = some p)
    (hother : submission.sealHash ≠ p.work.sealHash) :
    s.submit submission =
      (.error (.refused (if s.isIssued submission.sealHash then .staleWork else .unknownWork)),
        s) := by
  have hcurrent : s.current = some p.candidate := by
    rw [h.current, hlatest]
    rfl
  simp only [submit, hcurrent]
  exact if_pos hother

/-- The pushes decide the answer. -/
theorem submit_congr (h : Traces s₀ pushes s) (h' : Traces s₀ pushes s')
    (hother : ∀ latest, pushes.getLast? = some latest →
      submission.sealHash ≠ latest.work.sealHash) :
    (s'.submit submission).1 = (s.submit submission).1 := by
  cases hlatest : pushes.getLast? with
  | none =>
    obtain rfl := List.getLast?_eq_none_iff.1 hlatest
    rw [h.submit_of_nil, h'.submit_of_nil]
  | some latest =>
    have hissued : s'.isIssued submission.sealHash = s.isIssued submission.sealHash := by
      rw [Bool.eq_iff_iff, h.isIssued_iff, h'.isIssued_iff]
    rw [h.submit_of_ne hlatest (hother latest hlatest),
      h'.submit_of_ne hlatest (hother latest hlatest), hissued]

end Traces

/-- Pushes for which the verifier issues works succeed again, without what was between them. -/
theorem watchPushes_map_event {seen : List Push}
    (h : ∀ p ∈ pushes, s.verifier.workPackage p.block.header = .ok p.work) :
    (watchPushes (pushes.map Push.event) (seen, s)).1 = seen ++ pushes := by
  induction pushes generalizing seen s with
  | nil => exact (List.append_nil seen).symm
  | cons p pushes ih =>
    obtain ⟨hp, hrest⟩ := List.forall_mem_cons.1 h
    have hpushed := pushed?_event_of_workPackage hp
    have hverifier : (s.react p.event).verifier = s.verifier :=
      (pushWork_of_ok (pushed?_eq_some hpushed).2).1
    rw [← hverifier] at hrest
    have hstep : watchPushes ((p :: pushes).map Push.event) (seen, s) =
        watchPushes (pushes.map Push.event) (seen ++ [p], s.react p.event) := by
      rw [watchPushes, List.map_cons, List.foldl_cons, hpushed]
      rfl
    rw [hstep, ih hrest, List.append_assoc]
    rfl

/-- **Stale or unknown.** A sealer starts afresh, and requests and what others do follow in any
order. Without a successful push, there is no work to solve. Otherwise a solution of a work other
than the latest is stale when the last push with its seal hash is remembered, which means that every
push after it had a height below the sum of that one's height and the stale threshold; and it is
unknown in all other cases. With the successful pushes alone the answer would have been the same. -/
theorem watch_stale_iff {events : List Event} (hfresh : s₀.IsFresh)
    (hwatch : watchPushes events ([], s₀) = (pushes, s)) (submission : Submission) :
    (pushes = [] → (s.handle (.submitWork submission)).1 = .error (.refused .noWork)) ∧
    (∀ latest, pushes.getLast? = some latest → submission.sealHash ≠ latest.work.sealHash →
      ((s.handle (.submitWork submission)).1 = .error (.refused .staleWork) ↔
        ∃ p, Remembered s₀.staleThreshold pushes p ∧ p.work.sealHash = submission.sealHash) ∧
      ((s.handle (.submitWork submission)).1 = .error (.refused .unknownWork) ↔
        ¬ ∃ p, Remembered s₀.staleThreshold pushes p ∧ p.work.sealHash = submission.sealHash)) ∧
    ∃ bare, watchPushes (pushes.map Push.event) ([], s₀) = (pushes, bare) ∧
      ((∀ latest, pushes.getLast? = some latest →
        submission.sealHash ≠ latest.work.sealHash) →
        (bare.handle (.submitWork submission)).1 = (s.handle (.submitWork submission)).1) := by
  have htraces := hfresh.traces.watchPushes events
  rw [hwatch] at htraces
  refine ⟨?_, ?_, ?_⟩
  · rintro rfl
    rw [handle_submitWork, htraces.submit_of_nil]
  · intro latest hlatest hother
    rw [handle_submitWork, htraces.submit_of_ne hlatest hother, ← htraces.isIssued_iff]
    cases s.isIssued submission.sealHash <;> simp
  · have hpushes : (Sealer.watchPushes (pushes.map Push.event) ([], s₀)).1 = pushes :=
      watchPushes_map_event htraces.issued
    have hbare := hfresh.traces.watchPushes (pushes.map Push.event)
    rw [hpushes] at hbare
    exact ⟨_, Prod.ext hpushes rfl, htraces.submit_congr hbare⟩

end Sealer

/-! ## Solutions of two earlier works -/

namespace Sample

theorem exists_push (number : UInt64) : ∃ p : Sealer.Push, p.event = pushAt number ∧
    sealer.verifier.workPackage p.block.header = .ok p.work ∧ p.block = blockAt number ∧
    p.work.sealHash = (solutionOf (blockAt number)).sealHash := by
  obtain ⟨target, htarget⟩ := targetFor_of_ne_zero (show (max 0 1 : UInt64) ≠ 0 by decide)
  refine ⟨{ block := blockAt number, sink := "later", work :=
    { sealHash := (solutionOf (blockAt number)).sealHash, secondary := seedHash 0
      payload := target.toList, number := number } }, rfl, ?_, rfl, rfl⟩
  simp only [SealVerifier.workPackage, SealVerifier.workContents, sealer, blockAt, htarget]
  rfl

end Sample

namespace Sealer

/-- After pushes at the heights one, nine and four, the work at nine is stale and that at one is
forgotten. -/
theorem earlier_pushes_stale : Sample.sealer.IsFresh ∧
    ((watchPushes Sample.pushes ([], Sample.sealer)).2.handle
      (.submitWork (Sample.solutionOf (Sample.blockAt 9)))).1 = .error (.refused .staleWork) ∧
    ((watchPushes Sample.pushes ([], Sample.sealer)).2.handle
      (.submitWork (Sample.solutionOf (Sample.blockAt 1)))).1 =
        .error (.refused .unknownWork) := by
  have hfresh : Sample.sealer.IsFresh := ⟨rfl, rfl, rfl⟩
  obtain ⟨one, hone, hwork₁, hblock₁, hhash₁⟩ := Sample.exists_push 1
  obtain ⟨nine, hnine, hwork₉, hblock₉, hhash₉⟩ := Sample.exists_push 9
  obtain ⟨four, hfour, hwork₄, hblock₄, hhash₄⟩ := Sample.exists_push 4
  have hpushes : (watchPushes Sample.pushes ([], Sample.sealer)).1 = [one, nine, four] := by
    have hevents : Sample.pushes = [one, nine, four].map Push.event := by
      simp [Sample.pushes, hone, hnine, hfour]
    rw [hevents, watchPushes_map_event (by simp [hwork₁, hwork₉, hwork₄]), List.nil_append]
  have hwatch : watchPushes Sample.pushes ([], Sample.sealer) =
      ([one, nine, four], (watchPushes Sample.pushes ([], Sample.sealer)).2) :=
    Prod.ext hpushes rfl
  obtain ⟨h₉₄, h₁₄, h₁₉⟩ :
      (Sample.solutionOf (Sample.blockAt 9)).sealHash ≠
        (Sample.solutionOf (Sample.blockAt 4)).sealHash ∧
      (Sample.solutionOf (Sample.blockAt 1)).sealHash ≠
        (Sample.solutionOf (Sample.blockAt 4)).sealHash ∧
      (Sample.solutionOf (Sample.blockAt 1)).sealHash ≠
        (Sample.solutionOf (Sample.blockAt 9)).sealHash := by
    decide +kernel
  refine ⟨hfresh, ?_, ?_⟩
  · have hother : (Sample.solutionOf (Sample.blockAt 9)).sealHash ≠ four.work.sealHash := by
      rw [hhash₄]
      exact h₉₄
    have hstale := (watch_stale_iff hfresh hwatch _).2.1 four rfl hother
    refine hstale.1.2 ⟨nine, ⟨[one], [four], rfl, ?_⟩, hhash₉⟩
    intro later hlater
    obtain rfl := List.mem_singleton.1 hlater
    rw [hhash₄, hhash₉, hblock₄, hblock₉]
    exact ⟨h₉₄.symm, by decide⟩
  · have hother : (Sample.solutionOf (Sample.blockAt 1)).sealHash ≠ four.work.sealHash := by
      rw [hhash₄]
      exact h₁₄
    have hunknown := (watch_stale_iff hfresh hwatch _).2.1 four rfl hother
    refine hunknown.2.2 ?_
    rintro ⟨p, hremembered, hhash⟩
    -- The seal hash tells the two later pushes from the first, which the second has left behind.
    have hthree : Remembered 7 ([one, nine] ++ [four]) p := hremembered
    rcases remembered_concat_iff.1 hthree with rfl | ⟨hearlier, -⟩
    · exact h₁₄ (hhash.symm.trans hhash₄)
    have htwo : Remembered 7 ([one] ++ [nine]) p := hearlier
    rcases remembered_concat_iff.1 htwo with rfl | ⟨hfirst, -, hheight⟩
    · exact h₁₉ (hhash.symm.trans hhash₉)
    obtain ⟨before, after, hsplit, -⟩ := hfirst
    have hmem : p ∈ [one] := by
      rw [hsplit]
      simp
    rw [List.mem_singleton.1 hmem, hblock₉, hblock₁] at hheight
    exact absurd hheight (by decide)

end Sealer

end BlockSeal
