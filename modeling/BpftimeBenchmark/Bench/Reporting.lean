import BpftimeBenchmark.Bench.SslReport
import BpftimeBenchmark.Bench.SyscallReport
import BpftimeBenchmark.Bench.SyscountReport

/-!
The reports never fail on what the runs have recorded: every sample of every state that a
run goes through is positive, and positive samples are reported, whichever legs have none,
one or many of them.
-/

namespace BpftimeBenchmark.Bench

open Report

/-- `print_statistics` raises nothing. -/
def SslNginx.Reported (s : SslNginx.State) : Prop :=
  ∀ numRuns, ∃ printed,
    SslNginx.printStatisticsOrRaise .exact numRuns (SslNginx.resultsOf s) (SslNginx.runStatsOf s)
      (SslNginx.traceObservabilityOf s) = .ok printed

/-- `print_statistics` raises nothing, nor does `generate_report` on the averages that it
hands on. -/
def Syscount.Reported (s : Syscount.State) : Prop :=
  ∀ settings resultFilename timestamp, ∃ avgs printed report,
    Syscount.printStatistics settings (Syscount.resultsOf s) (Syscount.runStatsOf s)
      (Syscount.traceObservabilityOf s) = .ok (avgs, printed) ∧
    Syscount.generateReport settings avgs resultFilename timestamp = .ok report

/-- `print_statistics` and `save_results` raise nothing. -/
def Syscall.Reported (s : Syscall.State) : Prop :=
  ∀ numRuns,
    (∃ printed, Syscall.printStatistics numRuns (Syscall.resultsOf s) = .ok printed) ∧
    ∃ saved, Syscall.saveResults numRuns (Syscall.resultsOf s) = .ok saved

theorem SslNginx.reported {s : SslNginx.State} (h : AllPositive s.results) :
    SslNginx.Reported s :=
  fun numRuns => ⟨_, SslNginx.printStatisticsOrRaise_ok numRuns fun leg hne =>
    (PyStatistics.mean_pos hne (h leg)).ne'⟩

theorem Syscount.reported {s : Syscount.State} (h : AllPositive s.results) :
    Syscount.Reported s := by
  intro settings resultFilename timestamp
  have hstats : ∀ name ∈ Syscount.resultsOf s, name ∈ Syscount.runStatsOf s := by
    intro name hname
    rw [Dict.mem_keys, Syscount.resultsOf, Dict.keys_tabulate] at hname
    rwa [Dict.mem_keys, Syscount.runStatsOf, Dict.keys_tabulate]
  obtain ⟨⟨avgs, printed⟩, hprinted, hpos⟩ :=
    Syscount.returns_printStatistics settings (Syscount.traceObservabilityOf s) hstats h.tabulate
  obtain ⟨report, hreport, -⟩ :=
    Syscount.returns_generateReport settings hpos resultFilename timestamp
  exact ⟨avgs, printed, report, hprinted, hreport⟩

theorem Syscall.reported {s : Syscall.State} (h : AllPositive s.results) :
    Syscall.Reported s := by
  intro numRuns
  obtain ⟨printed, hprinted, -⟩ := Syscall.returns_printStatistics numRuns h.tabulate
  obtain ⟨saved, hsaved, -⟩ := Syscall.returns_saveResults numRuns h.tabulate
  exact ⟨⟨printed, hprinted⟩, saved, hsaved⟩

/-- In every state that a run of one of the three harnesses goes through all samples are
positive and reported, and so are positive samples in any combination. -/
theorem reports_never_fail :
    (∀ (cfg : SslNginx.Config) (env : PyEnv),
      ∀ s ∈ (SslNginx.main (ρ := Unit) cfg env (SslNginx.start cfg)).2.history,
        AllPositive s.results ∧ SslNginx.Reported s) ∧
    (∀ (cfg : Syscount.Config) (env : PyEnv),
      ∀ s ∈ (Syscount.main (ρ := Unit) cfg env Syscount.start).2.history,
        AllPositive s.results ∧ Syscount.Reported s) ∧
    (∀ (host : Syscall.Host) (env : Syscall.PyEnv) (fuel : Nat),
      ∀ s ∈ (Syscall.program host fuel env Syscall.start).2.history,
        AllPositive s.results ∧ Syscall.Reported s) ∧
    (∀ s : SslNginx.State, AllPositive s.results → SslNginx.Reported s) ∧
    (∀ s : Syscount.State, AllPositive s.results → Syscount.Reported s) ∧
    ∀ s : Syscall.State, AllPositive s.results → Syscall.Reported s := by
  refine ⟨fun cfg env s hs => ?_, fun cfg env s hs => ?_, fun host env fuel s hs => ?_,
    fun s => SslNginx.reported, fun s => Syscount.reported, fun s => Syscall.reported⟩
  · have hpos : AllPositive s.results := SslNginx.positive_samples cfg env s hs
    exact ⟨hpos, SslNginx.reported hpos⟩
  · have hpos : AllPositive s.results := (Syscount.positiveSamples_main cfg env).samples s hs
    exact ⟨hpos, Syscount.reported hpos⟩
  · have hpos : AllPositive s.results := Syscall.positiveSamples_program host env fuel s hs
    exact ⟨hpos, Syscall.reported hpos⟩

end BpftimeBenchmark.Bench
