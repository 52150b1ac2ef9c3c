import BlockSeal.Header
import BlockSeal.Word

/-! # Hash rates

`HashRate` adds up the local rate and the rates that remote workers report. A report counts while
it is younger than the window; a later report of the same worker replaces it.
-/

set_option autoImplicit false

namespace BlockSeal

/-- What one worker reported, and when. -/
structure RateReport where
  rate : UInt64
  /-- In seconds. -/
  time : UInt64
deriving DecidableEq

structure HashRate where
  /-- How many workers may be kept; with none, nothing is. -/
  maxWorkers : UInt64
  /-- How long a report counts, in seconds. -/
  window : UInt64
  localRate : UInt64 := 0
  reports : List (Hash × RateReport) := []

namespace HashRate

def setLocal (h : HashRate) (rate : UInt64) : HashRate := { h with localRate := rate }

/-- Takes in a report; it replaces the worker's earlier one. -/
def record (h : HashRate) (worker : Hash) (report : RateReport) : HashRate :=
  if h.maxWorkers = 0 then h
  else { h with reports := (worker, report) :: h.reports.filter fun r => r.1 ≠ worker }

def isLive (h : HashRate) (now : UInt64) (report : RateReport) : Bool :=
  now.subCapped report.time < h.window

def live (h : HashRate) (now : UInt64) : List (Hash × RateReport) :=
  h.reports.filter fun r => h.isLive now r.2

/-- Forgets the reports that no longer count. -/
def purge (h : HashRate) (now : UInt64) : HashRate := { h with reports := h.live now }

/-- The local rate and all rates that still count, added up. -/
def total (h : HashRate) (now : UInt64) : UInt64 :=
  (h.live now).foldl (fun sum r => sum.addCapped r.2.rate) h.localRate

end HashRate

end BlockSeal
