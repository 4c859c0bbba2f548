import BpftimeBenchmark.Bench.SslNginx
import BpftimeBenchmark.Bench.Syscount
import Mathlib.Data.List.Forall2
import Mathlib.Data.List.Infix

/-!
Behind every throughput sample of a traced leg stands a trace that was effective,
whatever the processes do and whenever a signal arrives. `ssl-nginx` checks one
trace before the first sample of a leg, `syscount-nginx` one trace for every
sample.
-/

namespace BpftimeBenchmark.Bench

open Scripts Script

theorem sublistForall₂_concat_right {α β : Type} {R : α → β → Prop} {l₁ : List α}
    {l₂ : List β} (h : List.SublistForall₂ R l₁ l₂) (b : β) :
    List.SublistForall₂ R l₁ (l₂ ++ [b]) := by
  obtain ⟨l, hpairs, hsublist⟩ := List.sublistForall₂_iff.mp h
  exact List.sublistForall₂_iff.mpr
    ⟨l, hpairs, hsublist.trans (List.sublist_append_left l₂ [b])⟩

theorem sublistForall₂_concat {α β : Type} {R : α → β → Prop} {l₁ : List α} {l₂ : List β}
    (h : List.SublistForall₂ R l₁ l₂) {a : α} {b : β} (hab : R a b) :
    List.SublistForall₂ R (l₁ ++ [a]) (l₂ ++ [b]) := by
  obtain ⟨l, hpairs, hsublist⟩ := List.sublistForall₂_iff.mp h
  have hlast : List.Forall₂ R [a] [b] := List.Forall₂.cons hab List.Forall₂.nil
  exact List.sublistForall₂_iff.mpr
    ⟨l ++ [b], List.rel_append hpairs hlast, hsublist.append_right [b]⟩

namespace SslNginx

def Evident (leg : Leg) (s : State) : Prop :=
  ∃ summary ∈ s.traceObservability leg, summary.attachSuccess = true ∧ 0 < summary.eventCount

/-- `s` has an effective trace that was there before the first sample. -/
def BackedBy (earlier : List State) (leg : Leg) (s : State) : Prop :=
  ∃ summary ∈ s.traceObservability leg, summary.attachSuccess = true ∧
    0 < summary.eventCount ∧
    ∃ e ∈ earlier, e.results leg = [] ∧ summary ∈ e.traceObservability leg

def Backed (leg : Leg) (history : List State) : Prop :=
  ∀ earlier s, earlier ++ [s] <+: history → s.results leg ≠ [] → BackedBy earlier leg s

variable {leg : Leg} {history : List State} {s s' : State}

theorem Backed.append (h : Backed leg history)
    (hs : s.results leg ≠ [] → BackedBy history leg s) : Backed leg (history ++ [s]) := by
  intro earlier s' hinit hsample
  rcases List.prefix_concat_iff.mp hinit with heq | hinit
  · obtain ⟨rfl, hlast⟩ := List.append_inj' heq rfl
    obtain rfl : s' = s := by simpa using hlast
    exact hs hsample
  · exact h earlier s' hinit hsample

theorem Backed.last {past : List State} (h : Backed leg (past ++ [s]))
    (hsample : s.results leg ≠ []) : BackedBy past leg s :=
  h past s List.prefix_rfl hsample

/-- Traces may be added while the samples stay. -/
theorem Backed.frame {past : List State} (h : Backed leg (past ++ [s]))
    (hresults : s'.results leg = s.results leg)
    (htraces : ∀ summary ∈ s.traceObservability leg, summary ∈ s'.traceObservability leg) :
    Backed leg (past ++ [s] ++ [s']) := by
  refine h.append fun hsample => ?_
  rw [hresults] at hsample
  obtain ⟨summary, hmem, hattach, hevents, e, he, hempty, hearly⟩ := h.last hsample
  exact ⟨summary, htraces _ hmem, hattach, hevents, e, List.mem_append_left _ he, hempty, hearly⟩

/-- A sample may be added where a trace was effective. -/
theorem Backed.sample {past : List State} (h : Backed leg (past ++ [s]))
    (hevident : Evident leg s)
    (htraces : s'.traceObservability leg = s.traceObservability leg) :
    Backed leg (past ++ [s] ++ [s']) := by
  refine h.append fun _ => ?_
  cases hresults : s.results leg with
  | nil =>
      obtain ⟨summary, hmem, hattach, hevents⟩ := hevident
      refine ⟨summary, by rwa [htraces], hattach, hevents, s, ?_, hresults, hmem⟩
      exact List.mem_append_right _ (List.mem_singleton_self s)
  | cons v rest =>
      have hsample : s.results leg ≠ [] := by simp [hresults]
      obtain ⟨summary, hmem, hattach, hevents, e, he, hempty, hearly⟩ := h.last hsample
      refine ⟨summary, by rwa [htraces], hattach, hevents, e, ?_, hempty, hearly⟩
      exact List.mem_append_left _ he

/-- Both traced legs are backed throughout. -/
def Backing (k : PyMachine State) : Prop := ∀ leg, leg ≠ .baseline → Backed leg k.history

def Traced (leg : Leg) (k : PyMachine State) : Prop := Backing k ∧ Evident leg k.state

theorem quiet_backing : Quiet Footprint.all Backing :=
  Quiet.history _ fun history => ∀ leg, leg ≠ .baseline → Backed leg history

theorem quiet_traced (leg : Leg) : Quiet Footprint.all (Traced leg) :=
  quiet_backing.and ⟨fun _ hk => hk, fun _ _ _ _ hk => hk, fun _ _ _ hk => hk⟩

theorem Backing.setStats {k : PyMachine State} (h : Backing k) (leg : Leg)
    (f : Stats → Stats) : Backing (k.updated fun s => s.setStats leg f) :=
  fun leg' hleg' => (h leg' hleg').frame rfl fun _ hmem => hmem

theorem Traced.setStats {leg : Leg} {k : PyMachine State} (h : Traced leg k) (leg' : Leg)
    (f : Stats → Stats) : Traced leg (k.updated fun s => s.setStats leg' f) :=
  ⟨h.1.setStats leg' f, h.2⟩

theorem Backing.addTrace {k : PyMachine State} (h : Backing k) (leg : Leg)
    (summary : Summary) : Backing (k.updated fun s => s.addTrace leg summary) := by
  refine fun leg' hleg' => (h leg' hleg').frame rfl fun old hmem => ?_
  simp only [Machine.updated, State.addTrace]
  split
  · exact List.mem_append_left _ hmem
  · exact hmem

theorem Backing.addResult {k : PyMachine State} (h : Backing k) (leg : Leg) (v : ℚ)
    (hevident : leg = .baseline ∨ Evident leg k.state) :
    Backing (k.updated fun s => s.addResult leg v) := by
  intro leg' hleg'
  rcases eq_or_ne leg' leg with rfl | hne
  · exact (h leg' hleg').sample (hevident.resolve_left hleg') rfl
  · refine (h leg' hleg').frame ?_ fun _ hmem => hmem
    simp [Machine.updated, State.addResult, hne]

variable {env : PyEnv}

theorem keepsLeg_baseline : KeepsLeg env Backing .baseline where
  quiet := quiet_backing
  failed := fun _ _ => maintains_markFailed quiet_backing fun _ f hk => hk.setStats _ f
  recorded := by
    refine fun v _ => maintains_bind (maintains_update quiet_backing fun k hk => ?_) fun _ => ?_
    · exact hk.addResult _ v (.inl rfl)
    · exact maintains_update quiet_backing fun k hk => hk.setStats _ _
  marked := fun _ hk => hk

theorem keepsLeg_traced : KeepsLeg env (Traced leg) leg where
  quiet := quiet_traced leg
  failed := fun _ _ => maintains_markFailed (quiet_traced leg) fun _ f hk => hk.setStats _ f
  recorded := by
    refine fun v _ => maintains_bind (maintains_update (quiet_traced leg) fun k hk => ?_)
      fun _ => ?_
    · exact ⟨hk.1.addResult _ v (.inr hk.2), hk.2⟩
    · exact maintains_update (quiet_traced leg) fun k hk => hk.setStats _ _
  marked := fun _ hk => hk

theorem keepsTrace (leg : Leg) : KeepsTrace Backing (Traced leg) leg where
  quiet := quiet_backing
  tracedQuiet := quiet_traced leg
  weaker := fun _ hk => hk.1
  added := fun _ summary hk => hk.addTrace leg summary
  effective := by
    intro k summary hk heffective
    refine ⟨hk.addTrace leg summary, summary, ?_, ?_⟩
    · simp [Machine.updated, State.addTrace]
    · simpa [traceIsEffective] using heffective

theorem maintains_benchRunner (cfg : Config) (leg : Leg) :
    Maintains env Backing (benchRunner cfg leg : Py State Unit Unit) := by
  have hfailed (leg : Leg) (reason : Reason) :
      Maintains env Backing (markFailed leg reason : Py State Unit Unit) :=
    maintains_markFailed quiet_backing fun _ f hk => hk.setStats _ f
  cases leg with
  | baseline =>
      exact maintains_runBaseline quiet_backing cfg (maintains_baselineRuns keepsLeg_baseline cfg)
  | kernelSslsniff =>
      refine maintains_runKernelSslsniff quiet_backing cfg ?_
      exact (keepsTrace _).kernelTraced cfg rfl (hfailed _ _) keepsLeg_traced
  | bpftimeSslsniff =>
      refine maintains_runBpftimeSslsniff quiet_backing cfg ?_
      exact (keepsTrace _).bpftimeTraced cfg rfl (fun reason _ => hfailed _ reason)
        keepsLeg_traced fun k hk => hk.setStats _ _

theorem backing_start (cfg : Config) : Backing (start cfg) := by
  intro leg _ earlier s hinit hsample
  have hs : s ∈ (start cfg).history := hinit.subset (by simp)
  obtain rfl : s = initial cfg := by simpa [Machine.history, start] using hs
  exact absurd rfl hsample

theorem maintains_backing (cfg : Config) :
    Maintains env Backing (main cfg : Py State Unit Unit) := by
  refine maintains_main quiet_backing cfg (fun k hk leg hleg => ?_) (maintains_benchRunner cfg)
  exact (hk leg hleg).frame rfl fun _ hmem => hmem

end SslNginx

namespace Syscount

/-- Every sample of the leg has a successful trace of its own. -/
def Matched (leg : Leg) (s : State) : Prop :=
  List.SublistForall₂ (fun _ summary => summary.traceSuccess = true) (s.results leg)
    (s.traceObservability leg)

/-- There is a successful trace for one more sample. -/
def Room (leg : Leg) (s : State) : Prop :=
  ∀ v, List.SublistForall₂ (fun _ summary => summary.traceSuccess = true)
    (s.results leg ++ [v]) (s.traceObservability leg)

theorem Matched.length_le {leg : Leg} {s : State} (h : Matched leg s) :
    (s.results leg).length ≤ (s.traceObservability leg).countP (·.traceSuccess) := by
  obtain ⟨backing, hpairs, hsublist⟩ := List.sublistForall₂_iff.mp h
  have hall : ∀ summary ∈ backing, summary.traceSuccess = true := by
    intro summary hmem
    obtain ⟨i, hi, rfl⟩ := List.getElem_of_mem hmem
    exact hpairs.get (by simpa [hpairs.length_eq] using hi) hi
  calc (s.results leg).length
      = backing.length := hpairs.length_eq
    _ = backing.countP (·.traceSuccess) := (List.countP_eq_length.mpr hall).symm
    _ ≤ (s.traceObservability leg).countP (·.traceSuccess) := hsublist.countP_le

def Paired (k : PyMachine State) : Prop :=
  ∀ s ∈ k.history, ∀ leg, leg ≠ .native → Matched leg s

theorem quiet_paired : Quiet Footprint.all Paired := quiet_always _ _

theorem Paired.updated {k : PyMachine State} (h : Paired k) {f : State → State}
    (hf : ∀ leg, leg ≠ .native → Matched leg k.state → Matched leg (f k.state)) :
    Paired (k.updated f) :=
  Always.updated h fun leg hleg => hf leg hleg (Always.state h leg hleg)

theorem Paired.setStats {k : PyMachine State} (h : Paired k) (leg : Leg)
    (f : Stats → Stats) : Paired (k.updated fun s => s.setStats leg f) :=
  h.updated fun _ _ hmatched => hmatched

theorem Paired.addTrace {k : PyMachine State} (h : Paired k) (leg : Leg)
    (summary : Summary) : Paired (k.updated fun s => s.addTrace leg summary) := by
  refine h.updated fun leg' _ hmatched => ?_
  unfold Matched State.addTrace
  dsimp only
  split
  · exact sublistForall₂_concat_right hmatched summary
  · exact hmatched

theorem Paired.addResult {k : PyMachine State} (h : Paired k) (leg : Leg) (v : ℚ)
    (hroom : leg = .native ∨ Room leg k.state) :
    Paired (k.updated fun s => s.addResult leg v) := by
  refine h.updated fun leg' hleg' hmatched => ?_
  unfold Matched State.addResult
  dsimp only
  split
  · rename_i heq
    subst heq
    exact hroom.resolve_left hleg' v
  · exact hmatched

/-- A successful trace makes room for a sample. -/
theorem Paired.room {k : PyMachine State} (h : Paired k) {leg : Leg} (hleg : leg ≠ .native)
    {summary : Summary} (hsuccess : summary.traceSuccess = true) :
    Room leg (k.state.addTrace leg summary) := by
  intro v
  have hmatched := Always.state h leg hleg
  have hroom := sublistForall₂_concat hmatched (a := v) (b := summary) hsuccess
  simpa [State.addTrace] using hroom

variable {env : PyEnv}

theorem maintains_markFailed {ρ : Type} {leg : Leg} {reason : Reason} :
    Maintains env Paired (markFailed leg reason : Py State ρ Unit) := by
  refine maintains_bind (maintains_update quiet_paired fun k hk => hk.setStats _ _) fun _ => ?_
  exact maintains_update quiet_paired fun k hk => hk.setStats _ _

theorem wp_record_of_room {ρ : Type} {leg : Leg} {v : ℚ} {k : PyMachine State} (hk : Paired k)
    (hroom : leg = .native ∨ Room leg k.state) :
    wp env (record leg v : Py State ρ Unit) (fun _ => Paired) (fun _ => Paired) k := by
  refine wp_bind (wp_update (fun _ _ => quiet_paired.tick k hk) fun _ => ?_)
  exact maintains_update quiet_paired (fun k hk => hk.setStats _ _) _ (hk.addResult leg v hroom)

/-- A sample is recorded where the trace of its run has just been summarized. -/
theorem maintains_finishTraced {ρ : Type} {leg : Leg} {mode : Mode} {i : Nat} {require : Bool} :
    Maintains env Paired (finishTraced leg mode i require : Py State ρ Unit) := by
  intro k hk
  refine wp_bind (wp_vars (wp_when (fun _ => ?_) fun _ => hk))
  have hawait : Maintains env Paired (awaitIfStarted leg mode : Py State ρ (Option Int)) :=
    maintains_awaitIfStarted quiet_paired (fun _ => trivial) fun _ _ => maintains_markFailed
  refine wp_bind (wp_bind (wp_mono (hawait k hk) (fun _ k hk => wp_bind ?_) fun _ _ hk => hk))
  refine free_act.use quiet_paired hk (fun _ k hk => ?_) fun _ _ hk => hk
  refine wp_summarizeSyscountLog quiet_paired (fun _ _ => trivial) hk (fun summary k hk => ?_)
    fun _ _ hk => hk
  have htraced := hk.addTrace leg summary
  split
  · split
    · rename_i hsuccess
      refine wp_record_of_room htraced ?_
      exact (eq_or_ne leg .native).imp_right fun hleg => hk.room hleg hsuccess
    · exact maintains_markFailed _ htraced
  · exact htraced

theorem keepsRuns_paired : KeepsRuns env Paired where
  quiet := quiet_paired
  marked := fun _ hk => hk
  failed := fun _ _ => maintains_markFailed
  recorded := fun _ _ hk => wp_record_of_room hk (.inl rfl)
  finished := fun _ _ _ _ => maintains_finishTraced

theorem paired_start : Paired start := by
  intro s hs leg _
  obtain rfl : s = initial := by simpa [Machine.history, start] using hs
  exact .nil

end Syscount

/-- Traced samples are backed in every state that a run of either program goes
through. -/
theorem samples_backed (sslCfg : SslNginx.Config) (sslEnv : PyEnv) (cfg : Syscount.Config)
    (env : PyEnv) :
    (∀ leg, leg ≠ .baseline →
      SslNginx.Backed leg
        (SslNginx.main (ρ := Unit) sslCfg sslEnv (SslNginx.start sslCfg)).2.history) ∧
    ∀ s ∈ (Syscount.main (ρ := Unit) cfg env Syscount.start).2.history, ∀ leg, leg ≠ .native →
      Syscount.Matched leg s ∧
      (s.results leg).length ≤ (s.traceObservability leg).countP (·.traceSuccess) := by
  constructor
  · exact (SslNginx.maintains_backing sslCfg).at_end (SslNginx.backing_start sslCfg)
  · intro s hs leg hleg
    have hmatched : Syscount.Matched leg s :=
      (Syscount.keepsRuns_paired.main cfg).at_end Syscount.paired_start s hs leg hleg
    exact ⟨hmatched, hmatched.length_le⟩

end BpftimeBenchmark.Bench
