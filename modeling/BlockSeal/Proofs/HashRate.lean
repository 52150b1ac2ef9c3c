import BlockSeal.HashRate
import Mathlib.Algebra.BigOperators.Group.Finset.Basic
import Mathlib.Algebra.GroupWithZero.Nat

/-! # What hash rates add up to

Reports are replaced, and those that no longer count are forgotten from time to time. The total only
depends on what was reported last: a report that was forgotten counts at no later time either.

* `isLive_iff`, `isLive_of_le`: when a report counts, and that it does not count again later.
* `toNat_total`: a sum that stops at the largest word is that of the natural numbers, cut off once.
* `Call`, `perform`, `Leads`: calls, and what they lead to in whatever order reports are kept.
* `lastLocal`, `lastReport?`, `workers`, `share`: what was reported, read off the calls.
* `Tracks`: what is kept accounts for the last reports. One call keeps this (`Tracks.perform`), and so
  does another order (`Tracks.reorders`), hence any run (`Leads.tracks`).
* `total_of_leads`: the total after any calls.
-/

set_option autoImplicit false

namespace BlockSeal

/-- Adding up words with a limit is adding up the numbers and applying the limit once. -/
theorem toNat_foldl_addCapped {α : Type} (f : α → UInt64) (l : List α) (start : UInt64) :
    (l.foldl (fun sum a => sum.addCapped (f a)) start).toNat =
      min (start.toNat + (l.map fun a => (f a).toNat).sum) (UInt64.size - 1) := by
  induction l generalizing start with
  | nil =>
    have hstart : start.toNat < UInt64.size := start.toNat_lt
    simp only [List.foldl_nil, List.map_nil, List.sum_nil]
    omega
  | cons a l ih =>
    rw [List.foldl_cons, ih, UInt64.toNat_addCapped, List.map_cons, List.sum_cons]
    omega

/-- The last of all results, when one element more is looked at. -/
theorem getLast?_filterMap_concat {α β : Type} (f : α → Option β) (l : List α) (a : α) :
    ((l ++ [a]).filterMap f).getLast? = (f a).or (l.filterMap f).getLast? := by
  rw [List.filterMap_append]
  cases h : f a with
  | none => simp [h]
  | some b => simp [h]

namespace HashRate

variable {h h' : HashRate} {now t : UInt64} {report : RateReport}

/-! ## Reports that count -/

theorem isLive_iff : h.isLive now report = true ↔
    now.toNat - report.time.toNat < h.window.toNat := by
  rw [isLive, decide_eq_true_eq, UInt64.lt_iff_toNat_lt, UInt64.toNat_subCapped]

/-- What counts at some time did so at every earlier one. -/
theorem isLive_of_le (hle : t ≤ now) (hlive : h.isLive now report = true) :
    h.isLive t report = true := by
  rw [isLive_iff] at hlive ⊢
  rw [UInt64.le_iff_toNat_le] at hle
  omega

theorem toNat_total (h : HashRate) (now : UInt64) : (h.total now).toNat =
    min (h.localRate.toNat + ((h.live now).map fun r => r.2.rate.toNat).sum) (UInt64.size - 1) :=
  toNat_foldl_addCapped (fun r : Hash × RateReport => r.2.rate) (h.live now) h.localRate

/-! ## Calls -/

inductive Call
  | setLocal (rate : UInt64)
  | record (worker : Hash) (report : RateReport)
  | purge (now : UInt64)

def perform (h : HashRate) : Call → HashRate
  | .setLocal rate => h.setLocal rate
  | .record worker report => h.record worker report
  | .purge now => h.purge now

/-- Nothing differs but the order in which the reports are kept. -/
def Reorders (h h' : HashRate) : Prop :=
  ∃ reports, reports.Perm h.reports ∧ h' = { h with reports := reports }

/-- What calls can lead to from `start`. The reports may be in another order after each of them; and
there is always room for the workers. -/
inductive Leads (start : HashRate) : List Call → HashRate → Prop
  | nil : Leads start [] start
  | call {calls : List Call} {h h' : HashRate} (call : Call) (before : Leads start calls h)
      (room : (h.perform call).reports.length ≤ h.maxWorkers.toNat)
      (order : (h.perform call).Reorders h') : Leads start (calls ++ [call]) h'

theorem Leads.next {start : HashRate} {calls : List Call} (before : start.Leads calls h)
    (call : Call) (room : (h.perform call).reports.length ≤ h.maxWorkers.toNat) :
    start.Leads (calls ++ [call]) (h.perform call) :=
  .call call before room ⟨_, .refl _, rfl⟩

/-! ## What was reported -/

namespace Call

def localRate? : Call → Option UInt64
  | setLocal rate => some rate
  | _ => none

def worker? : Call → Option Hash
  | record worker _ => some worker
  | _ => none

def reportOf? (worker : Hash) : Call → Option RateReport
  | record other report => if other = worker then some report else none
  | _ => none

end Call

variable {calls : List Call} {worker : Hash}

/-- The local rate that was set last; zero if none was. -/
def lastLocal (calls : List Call) : UInt64 := ((calls.filterMap Call.localRate?).getLast?).getD 0

def lastReport? (worker : Hash) (calls : List Call) : Option RateReport :=
  (calls.filterMap (Call.reportOf? worker)).getLast?

/-- The workers that reported something. -/
def workers (calls : List Call) : Finset Hash := (calls.filterMap Call.worker?).toFinset

/-- What a report adds to the total. -/
def counted (window now : UInt64) (report : RateReport) : ℕ :=
  if now.toNat - report.time.toNat < window.toNat then report.rate.toNat else 0

/-- What a worker adds to the total. -/
def share (window now : UInt64) (calls : List Call) (worker : Hash) : ℕ :=
  ((lastReport? worker calls).map (counted window now)).getD 0

theorem lastLocal_concat (calls : List Call) (call : Call) :
    lastLocal (calls ++ [call]) = call.localRate?.getD (lastLocal calls) := by
  unfold lastLocal
  rw [getLast?_filterMap_concat]
  cases call.localRate? <;> rfl

theorem lastReport?_concat (worker : Hash) (calls : List Call) (call : Call) :
    lastReport? worker (calls ++ [call]) = (call.reportOf? worker).or (lastReport? worker calls) :=
  getLast?_filterMap_concat _ calls call

theorem lastReport?_record (worker other : Hash) (calls : List Call) (report : RateReport) :
    lastReport? worker (calls ++ [.record other report]) =
      if other = worker then some report else lastReport? worker calls := by
  rw [lastReport?_concat, Call.reportOf?]
  split <;> rfl

theorem mem_workers_iff :
    worker ∈ workers calls ↔ ∃ report, lastReport? worker calls = some report := by
  induction calls using List.reverseRecOn with
  | nil => simp [workers, lastReport?]
  | append_singleton calls call ih =>
    have hworkers : worker ∈ workers (calls ++ [call]) ↔
        worker ∈ workers calls ∨ call.worker? = some worker := by
      simp only [workers, List.filterMap_append, List.toFinset_append, Finset.mem_union,
        List.mem_toFinset]
      simp [List.mem_filterMap]
    rw [hworkers, ih, lastReport?_concat]
    cases call with
    | setLocal rate => simp [Call.worker?, Call.reportOf?]
    | purge now => simp [Call.worker?, Call.reportOf?]
    | record other report =>
      by_cases hother : other = worker <;> simp [Call.worker?, Call.reportOf?, hother]

/-! ## What is kept -/

/-- The reports that are kept are the last ones of different workers; and a last one that is not
kept did not count any more when something was forgotten. -/
structure Tracks (maxWorkers window : UInt64) (calls : List Call) (h : HashRate) : Prop where
  maxWorkers : h.maxWorkers = maxWorkers
  window : h.window = window
  localRate : h.localRate = lastLocal calls
  keys : (h.reports.map (·.1)).Nodup
  held : ∀ r ∈ h.reports, lastReport? r.1 calls = some r.2
  forgotten : ∀ worker report, lastReport? worker calls = some report →
    (worker, report) ∉ h.reports → ∃ t, .purge t ∈ calls ∧ h.isLive t report = false

variable {maxWorkers window : UInt64}

theorem tracks_nil (maxWorkers window : UInt64) :
    Tracks maxWorkers window [] { maxWorkers := maxWorkers, window := window } where
  maxWorkers := rfl
  window := rfl
  localRate := rfl
  keys := List.nodup_nil
  held := nofun
  forgotten := nofun

namespace Tracks

theorem setLocal (htracks : Tracks maxWorkers window calls h) (rate : UInt64) :
    Tracks maxWorkers window (calls ++ [.setLocal rate]) (h.setLocal rate) := by
  have hlast (worker : Hash) :
      lastReport? worker (calls ++ [.setLocal rate]) = lastReport? worker calls :=
    lastReport?_concat worker calls _
  refine ⟨htracks.maxWorkers, htracks.window, ?_, htracks.keys, ?_, ?_⟩
  · rw [lastLocal_concat]
    rfl
  · intro r hr
    rw [hlast]
    exact htracks.held r hr
  · intro worker report hreport hmissing
    rw [hlast] at hreport
    obtain ⟨t, htime, hdead⟩ := htracks.forgotten worker report hreport hmissing
    exact ⟨t, List.mem_append_left _ htime, hdead⟩

theorem record (htracks : Tracks maxWorkers window calls h) (hroom : maxWorkers ≠ 0) (worker : Hash)
    (report : RateReport) :
    Tracks maxWorkers window (calls ++ [.record worker report]) (h.record worker report) := by
  have hafter : h.record worker report = { h with
      reports := (worker, report) :: h.reports.filter fun r => r.1 ≠ worker } := by
    rw [HashRate.record, if_neg]
    rw [htracks.maxWorkers]
    exact hroom
  rw [hafter]
  refine ⟨htracks.maxWorkers, htracks.window, ?_, ?_, ?_, ?_⟩
  · rw [lastLocal_concat]
    exact htracks.localRate
  · rw [List.map_cons, List.nodup_cons]
    constructor
    · intro hmem
      obtain ⟨r, hr, hsame⟩ := List.mem_map.1 hmem
      simpa [hsame] using (List.mem_filter.1 hr).2
    · exact (List.filter_sublist.map _).nodup htracks.keys
  · intro r hr
    rw [lastReport?_record]
    rcases List.mem_cons.1 hr with rfl | hold
    · rw [if_pos rfl]
    · obtain ⟨hkept, hother⟩ := List.mem_filter.1 hold
      rw [if_neg (Ne.symm (of_decide_eq_true hother))]
      exact htracks.held r hkept
  · intro other last hlast hmissing
    rw [lastReport?_record] at hlast
    by_cases hsame : worker = other
    · rw [if_pos hsame, Option.some.injEq] at hlast
      rw [hsame, hlast] at hmissing
      exact absurd List.mem_cons_self hmissing
    · rw [if_neg hsame] at hlast
      have hgone : (other, last) ∉ h.reports := by
        intro hkept
        have hother : decide (other ≠ worker) = true := decide_eq_true (Ne.symm hsame)
        exact hmissing (List.mem_cons_of_mem _ (List.mem_filter.2 ⟨hkept, hother⟩))
      obtain ⟨t, htime, hdead⟩ := htracks.forgotten other last hlast hgone
      exact ⟨t, List.mem_append_left _ htime, hdead⟩

theorem purge (htracks : Tracks maxWorkers window calls h) (now : UInt64) :
    Tracks maxWorkers window (calls ++ [.purge now]) (h.purge now) := by
  have hlast (worker : Hash) :
      lastReport? worker (calls ++ [.purge now]) = lastReport? worker calls :=
    lastReport?_concat worker calls _
  refine ⟨htracks.maxWorkers, htracks.window, ?_, ?_, ?_, ?_⟩
  · rw [lastLocal_concat]
    exact htracks.localRate
  · exact (List.filter_sublist.map _).nodup htracks.keys
  · intro r hr
    rw [hlast]
    exact htracks.held r (List.mem_filter.1 hr).1
  · intro worker report hreport hmissing
    rw [hlast] at hreport
    by_cases hkept : (worker, report) ∈ h.reports
    · -- It was forgotten just now.
      refine ⟨now, List.mem_append_right _ List.mem_cons_self, ?_⟩
      rw [Bool.eq_false_iff]
      exact fun hlive => hmissing (List.mem_filter.2 ⟨hkept, hlive⟩)
    · obtain ⟨t, htime, hdead⟩ := htracks.forgotten worker report hreport hkept
      exact ⟨t, List.mem_append_left _ htime, hdead⟩

/-- **One call.** -/
theorem perform (htracks : Tracks maxWorkers window calls h) (hroom : maxWorkers ≠ 0)
    (call : Call) : Tracks maxWorkers window (calls ++ [call]) (h.perform call) := by
  cases call with
  | setLocal rate => exact htracks.setLocal rate
  | record worker report => exact htracks.record hroom worker report
  | purge now => exact htracks.purge now

theorem reorders (htracks : Tracks maxWorkers window calls h) (horder : h.Reorders h') :
    Tracks maxWorkers window calls h' := by
  obtain ⟨reports, hperm, rfl⟩ := horder
  refine ⟨htracks.maxWorkers, htracks.window, htracks.localRate, ?_, ?_, ?_⟩
  · exact (hperm.map _).nodup_iff.2 htracks.keys
  · exact fun r hr => htracks.held r (hperm.mem_iff.1 hr)
  · exact fun worker report hlast hmissing =>
      htracks.forgotten worker report hlast fun hkept => hmissing (hperm.mem_iff.2 hkept)

/-- The reports that count are those that would count if nothing had been forgotten. -/
theorem sum_live (htracks : Tracks maxWorkers window calls h)
    (hnow : ∀ t, .purge t ∈ calls → t ≤ now) :
    ((h.live now).map fun r => r.2.rate.toNat).sum =
      ∑ worker ∈ workers calls, share window now calls worker := by
  have hcounted : ∀ report, counted window now report =
      if h.isLive now report = true then report.rate.toNat else 0 := by
    intro report
    simp only [counted, isLive_iff, htracks.window]
  have hnodup : ((h.live now).map (·.1)).Nodup := (List.filter_sublist.map _).nodup htracks.keys
  have hlive : ((h.live now).map fun r => r.2.rate.toNat) =
      (h.live now).map fun r => share window now calls r.1 := by
    refine List.map_congr_left fun r hr => ?_
    obtain ⟨hkept, hcounts⟩ := List.mem_filter.1 hr
    rw [share, htracks.held r hkept, Option.map_some, Option.getD_some, hcounted, if_pos hcounts]
  calc ((h.live now).map fun r => r.2.rate.toNat).sum
      = (((h.live now).map (·.1)).map (share window now calls)).sum := by
        rw [hlive, List.map_map]
        rfl
    _ = ∑ worker ∈ ((h.live now).map (·.1)).toFinset, share window now calls worker :=
        (List.sum_toFinset _ hnodup).symm
    _ = ∑ worker ∈ workers calls, share window now calls worker := by
        refine Finset.sum_subset ?_ ?_
        · intro worker hworker
          obtain ⟨r, hr, rfl⟩ := List.mem_map.1 (List.mem_toFinset.1 hworker)
          exact mem_workers_iff.2 ⟨r.2, htracks.held r (List.mem_filter.1 hr).1⟩
        · intro worker _ hdropped
          rw [share]
          cases hlast : lastReport? worker calls with
          | none => rfl
          | some report =>
            rw [Option.map_some, Option.getD_some, hcounted, if_neg]
            intro hcounts
            -- It counts, so it did at every purge, and it is still there.
            by_cases hkept : (worker, report) ∈ h.reports
            · refine hdropped (List.mem_toFinset.2 (List.mem_map.2 ⟨(worker, report), ?_, rfl⟩))
              exact List.mem_filter.2 ⟨hkept, hcounts⟩
            · obtain ⟨t, htime, hdead⟩ := htracks.forgotten worker report hlast hkept
              rw [isLive_of_le (hnow t htime) hcounts] at hdead
              cases hdead

end Tracks

/-- **Every run.** -/
theorem Leads.tracks (hroom : maxWorkers ≠ 0)
    (hrun : Leads { maxWorkers := maxWorkers, window := window } calls h) :
    Tracks maxWorkers window calls h := by
  induction hrun with
  | nil => exact tracks_nil maxWorkers window
  | call call before room order ih => exact (ih.perform hroom call).reorders order

/-- **The total.** A hash rate starts with nothing, and rates are set, reported and forgotten, while
there is room for all workers. At a time that is not before anything was forgotten, the total is the
last local rate and the last rates of all workers whose reports count, cut off at the largest word.
So it is the same whenever the same rates were set and reported last, whatever was replaced or
forgotten, and in whatever order the reports are kept. A report from the future is as good as a new
one: it counts if any report can. -/
theorem total_of_leads (hroom : maxWorkers ≠ 0)
    (hrun : Leads { maxWorkers := maxWorkers, window := window } calls h)
    (hnow : ∀ t, .purge t ∈ calls → t ≤ now) :
    (h.total now).toNat = min (2 ^ 64 - 1) ((lastLocal calls).toNat +
      ∑ worker ∈ workers calls, share window now calls worker) ∧
    (∀ calls' h', Leads { maxWorkers := maxWorkers, window := window } calls' h' →
      (∀ t, .purge t ∈ calls' → t ≤ now) → lastLocal calls' = lastLocal calls →
      (∀ worker, lastReport? worker calls' = lastReport? worker calls) →
      h'.total now = h.total now) ∧
    ∀ report, now ≤ report.time → (h.isLive now report = true ↔ window ≠ 0) := by
  have hformula : ∀ {calls h}, Leads { maxWorkers := maxWorkers, window := window } calls h →
      (∀ t, .purge t ∈ calls → t ≤ now) →
      (h.total now).toNat = min (2 ^ 64 - 1) ((lastLocal calls).toNat +
        ∑ worker ∈ workers calls, share window now calls worker) := by
    intro calls h hrun hnow
    have htracks := hrun.tracks hroom
    rw [toNat_total, htracks.sum_live hnow, htracks.localRate, Nat.min_comm]
    rfl
  refine ⟨hformula hrun hnow, ?_, ?_⟩
  · intro calls' h' hrun' hnow' hlocal hlast
    have hworkers : workers calls' = workers calls := by
      ext worker
      rw [mem_workers_iff, mem_workers_iff, hlast]
    apply UInt64.toNat_inj.1
    rw [hformula hrun' hnow', hformula hrun hnow, hlocal, hworkers]
    simp only [share, hlast]
  · intro report hfuture
    rw [isLive_iff, (hrun.tracks hroom).window, ne_eq, ← UInt64.toNat_inj, UInt64.toNat_zero]
    rw [UInt64.le_iff_toNat_le] at hfuture
    omega

end HashRate

/-! ## A report that is replaced, one that is forgotten, and one from the future -/

namespace Sample

def workerAt (byte : UInt8) : Hash := Octets.replicate 32 byte

def tracker : HashRate := { maxWorkers := 2, window := 10 }

/-- The second worker's report is eleven seconds old when it is forgotten. -/
def reporting : List HashRate.Call := [
  .setLocal 5,
  .record (workerAt 1) { rate := 100, time := 50 },
  .record (workerAt 2) { rate := 200, time := 55 },
  .record (workerAt 1) { rate := 7, time := 58 },
  .purge 66,
  .record (workerAt 3) { rate := 30, time := 100 }]

/-- The older report comes first. -/
def reported : HashRate where
  maxWorkers := 2
  window := 10
  localRate := 5
  reports := [(workerAt 1, { rate := 7, time := 58 }), (workerAt 3, { rate := 30, time := 100 })]

theorem reporting_leads : tracker.Leads reporting reported := by
  have hfirst : tracker.Leads [] tracker := .nil
  have hreplaced := (((hfirst.next (.setLocal 5) (by decide)).next
    (.record (workerAt 1) { rate := 100, time := 50 }) (by decide)).next
    (.record (workerAt 2) { rate := 200, time := 55 }) (by decide)).next
    (.record (workerAt 1) { rate := 7, time := 58 }) (by decide)
  have hpurged := hreplaced.next (.purge 66) (by decide)
  exact .call (.record (workerAt 3) { rate := 30, time := 100 }) hpurged (by decide)
    ⟨_, .swap _ _ _, rfl⟩

end Sample

namespace HashRate

/-- The local rate, the replacement and the report from the future are all that counts. -/
theorem reporting_total : (2 : UInt64) ≠ 0 ∧ Sample.tracker.Leads Sample.reporting Sample.reported ∧
    (∀ t, .purge t ∈ Sample.reporting → t ≤ 66) ∧ (Sample.reported.total 66).toNat = 42 := by
  have hroom : (2 : UInt64) ≠ 0 := by decide
  have hpurges : ∀ t, .purge t ∈ Sample.reporting → t ≤ 66 := by
    intro t ht
    have hsame : t = 66 := by simpa [Sample.reporting] using ht
    rw [hsame]
    exact UInt64.le_refl _
  obtain ⟨htotal, -, -⟩ := total_of_leads hroom Sample.reporting_leads hpurges
  refine ⟨hroom, Sample.reporting_leads, hpurges, htotal.trans ?_⟩
  decide

end HashRate

end BlockSeal
