import BpftimeBenchmark.Bench.Syscall

/-!
Invariants of `syscall/benchmark.py`. What an invariant has to put up with is the
cleanup, the start of a server and the runs of the legs; the rest of the script does
not disturb it.
-/

namespace BpftimeBenchmark.Bench.Syscall

open Scripts Script

variable {host : Host} {env : PyEnv} {ρ α : Type} {A : Footprint Op Vars}
  {inv : PyMachine → Prop} {X : Exit Exc ρ → PyMachine → Prop}

theorem wp_act {action : Act} {k : PyMachine}
    {Q : action.Result → PyMachine → Prop} {X : Exit Exc ρ → PyMachine → Prop}
    (hraise : ∀ e, env.interrupt k.clock = some e → X (.raise e) k.tick)
    (hok : ∀ r, env.answer k.clock (.act action) = .ok r →
      Q r (k.answered (.act action) (.ok r)))
    (herror : ∀ f, env.answer k.clock (.act action) = .error f →
      X (.raise f.exc) (k.answered (.act action) (.error f))) :
    wp env (act action : Py ρ action.Result) Q X k := by
  refine wp_bind (wp_call hraise fun _ => ?_)
  cases hr : env.answer k.clock (.act action) with
  | ok r => exact wp_pure (hok r hr)
  | error f => exact wp_raise (herror f hr)

theorem keeps_act {action : Act} (hquiet : Quiet A inv) (hop : A.calls (.act action))
    (hX : ∀ e k, inv k → X (.raise e) k) :
    Keeps env inv X (act action : Py ρ action.Result) := by
  refine keeps_bind (keeps_call (fun k e _ hk => hX e _ (hquiet.tick k hk)) hquiet hop)
    fun reply => ?_
  cases reply with
  | ok r => exact keeps_pure
  | error f => exact keeps_raise (hX f.exc)

theorem maintains_act {action : Act} (hquiet : Quiet A inv) (hop : A.calls (.act action)) :
    Maintains env inv (act action : Py ρ action.Result) :=
  keeps_act hquiet hop fun _ _ hk => hk

theorem maintains_ask {query : Query} (hquiet : Quiet A inv) (hop : A.calls (.ask query)) :
    Maintains env inv (ask query : Py ρ query.Answer) :=
  keeps_call (fun k _ _ hk => hquiet.tick k hk) hquiet hop

theorem keeps_intOf {s : Text} (hX : ∀ e k, inv k → X (.raise e) k) :
    Keeps env inv X (intOf s : Py ρ Int) := by
  unfold intOf
  split
  · exact keeps_pure
  · exact keeps_raise (hX .other)

theorem keeps_addSafe {pid : Int} (hquiet : Quiet A inv)
    (hadd : ∀ k pid, inv k → inv (k.updated (fun s => s.addSafe pid)))
    (hX : ∀ e k, inv k → X (.raise e) k) : Keeps env inv X (addSafe pid : Py ρ Unit) :=
  keeps_update (fun k e _ hk => hX e _ (hquiet.tick k hk)) fun k hk => hadd k pid hk

/-- A bare `except` lets no exception out. -/
theorem keeps_tryAny {m handler : Py ρ α} (hbody : Keeps env inv (raising (fun _ => inv) X) m)
    (hhandler : Keeps env inv X handler) : Keeps env inv X (tryExcept m (onAny handler)) :=
  keeps_tryExcept hbody fun _ k hk => hhandler k hk

theorem maintains_tryAny {m handler : Py ρ α} (hbody : Maintains env inv m)
    (hhandler : Maintains env inv handler) :
    Maintains env inv (tryExcept m (onAny handler)) := by
  refine maintains_tryExcept hbody fun e h heq => ?_
  obtain rfl := Option.some.inj heq
  exact hhandler

theorem eq_of_onException {handler h : Py ρ α} {e : Exc}
    (heq : onException handler e = some h) : h = handler := by
  cases e <;> cases heq <;> rfl

theorem maintains_tryException {m handler : Py ρ α} (hbody : Maintains env inv m)
    (hhandler : Maintains env inv handler) :
    Maintains env inv (tryExcept m (onException handler)) :=
  maintains_tryExcept hbody fun _ _ heq => eq_of_onException heq ▸ hhandler

/-- All but the kill of the cleanup, the start of a server, and the runs that
`userspace_syscall` is measured by. -/
def Op.plain : Op → Bool
  | .act (.popen _) => false
  | .act (.run (.sudoKill9 _)) => false
  | .act (.run .victimWithAgent) => false
  | .act (.run .bpftimeStart) => false
  | _ => true

section InitSafePids

variable (hplain : ∀ op, op.plain = true → A.calls op) (hquiet : Quiet A inv)
  (hadd : ∀ k pid, inv k → inv (k.updated (fun s => s.addSafe pid)))

include hplain hquiet

theorem keeps_lookupParent {pid : Int} :
    Keeps env inv X (lookupParent pid : Py ρ (Option Int)) := by
  refine keeps_tryAny (keeps_bind (keeps_act hquiet (hplain _ rfl) fun _ _ hk => hk)
    fun result => ?_) keeps_pure
  refine keeps_bind ?_ fun _ => keeps_pure
  exact keeps_ite (fun _ => keeps_intOf fun _ _ hk => hk) fun _ => keeps_pure

include hadd

theorem maintains_addAncestors {fuel : Nat} {pid : Int} :
    Maintains env inv (addAncestors fuel pid : Py ρ Bool) := by
  induction fuel generalizing pid with
  | zero => exact maintains_pure
  | succ fuel ih =>
      refine maintains_bind maintains_read fun s => maintains_ite maintains_pure ?_
      refine maintains_bind (keeps_addSafe hquiet hadd fun _ _ hk => hk) fun _ => ?_
      refine maintains_bind (keeps_lookupParent hplain hquiet) fun parent => ?_
      cases parent with
      | none => exact maintains_pure
      | some q => exact ih

theorem keeps_addGroup : Keeps env inv X (addGroup : Py ρ Unit) := by
  refine keeps_tryAny (keeps_bind (keeps_act hquiet (hplain _ rfl) fun _ _ hk => hk)
    fun pgid => ?_) keeps_pure
  exact keeps_addSafe hquiet hadd fun _ _ hk => hk

theorem keeps_addScripts : Keeps env inv X (addScripts : Py ρ Unit) := by
  refine keeps_tryAny (keeps_bind (keeps_act hquiet (hplain _ rfl) fun _ _ hk => hk)
    fun pythonProcs => ?_) keeps_pure
  refine keeps_bind (keeps_forEach fun pid _ => ?_) fun _ => keeps_pure
  refine keeps_tryAny (keeps_bind (keeps_intOf fun _ _ hk => hk) fun n => ?_) keeps_pure
  exact keeps_addSafe hquiet hadd fun _ _ hk => hk

theorem maintains_initSafePids {fuel : Nat} :
    Maintains env inv (initSafePids host fuel : Py ρ Bool) := by
  refine maintains_bind (maintains_addAncestors hplain hquiet hadd) fun ended => ?_
  refine maintains_bind (keeps_addGroup hplain hquiet hadd) fun _ => ?_
  exact maintains_bind (keeps_addScripts hplain hquiet hadd) fun _ => maintains_pure

end InitSafePids

/-- An invariant that the cleanup, the start of a server and all that is plain leave
alone. -/
structure Bystander (host : Host) (env : PyEnv) (A : Footprint Op Vars)
    (inv : PyMachine → Prop) : Prop where
  plain : ∀ op, op.plain = true → A.calls op
  assigns : ∀ f, A.assigns f
  quiet : Quiet A inv
  marked : ∀ k, inv k → inv k.marked
  cleanup : ∀ ρ : Type, Maintains env inv (cleanupProcesses host : Py ρ Unit)
  server : ∀ (ρ : Type) server, Maintains env inv (startServer server : Py ρ Unit)

/-- All but the runs that `userspace_syscall` is measured by. -/
def Op.unmeasured : Op → Bool
  | .act (.run .victimWithAgent) => false
  | .act (.run .bpftimeStart) => false
  | _ => true

def unmeasured : Footprint Op Vars := ⟨fun op => op.unmeasured = true, fun _ => True⟩

/-- The cleanup changes the set and the flag only. -/
theorem maintains_cleanup (hquiet : Quiet unmeasured inv)
    (hupdate : ∀ k f, (∀ s, State.results (f s) = s.results) → inv k → inv (k.updated f)) :
    Maintains env inv (cleanupProcesses host : Py ρ Unit) := by
  have hadd : ∀ {ρ : Type} {pid : Int}, Maintains env inv (addSafe pid : Py ρ Unit) :=
    maintains_update hquiet fun k hk => hupdate k _ (fun _ => rfl) hk
  refine maintains_bind maintains_read fun s => maintains_when (maintains_tryFinally ?_ ?_)
  · refine maintains_tryException ?_ maintains_pure
    refine maintains_bind (maintains_update hquiet fun k hk => hupdate k _ (fun _ => rfl) hk)
      fun _ => maintains_bind hadd fun _ => ?_
    refine maintains_bind ?_ fun _ => maintains_bind ?_ fun _ => maintains_ask hquiet rfl
    · refine maintains_tryAny ?_ maintains_pure
      exact maintains_bind (maintains_act hquiet rfl) fun parentPid => hadd
    · refine maintains_bind (maintains_forEach fun tool _ => ?_) fun _ => maintains_pure
      refine maintains_tryException ?_ maintains_pure
      refine maintains_bind (maintains_act hquiet rfl) fun result => ?_
      refine maintains_bind (maintains_forEach fun pid _ => ?_) fun _ => maintains_pure
      refine maintains_tryException ?_ maintains_pure
      refine maintains_bind (keeps_intOf fun _ _ hk => hk) fun pidInt => ?_
      refine maintains_bind maintains_read fun s => maintains_when ?_
      refine maintains_bind (maintains_act hquiet rfl) fun result => ?_
      refine maintains_bind (maintains_when maintains_cont) fun _ => ?_
      exact maintains_bind (maintains_act hquiet rfl) fun _ => maintains_pure
  · exact maintains_update hquiet fun k hk => hupdate k _ (fun _ => rfl) hk

/-- An invariant of the measured runs and the results. -/
theorem bystander_of_results (hquiet : Quiet unmeasured inv)
    (hupdate : ∀ k f, (∀ s, State.results (f s) = s.results) → inv k → inv (k.updated f))
    (hmarked : ∀ k, inv k → inv k.marked) : Bystander host env unmeasured inv where
  plain := by
    intro op hop
    show op.unmeasured = true
    unfold Op.unmeasured
    split <;> first | rfl | cases hop
  assigns := fun _ => trivial
  quiet := hquiet
  marked := hmarked
  cleanup := fun _ => maintains_cleanup hquiet hupdate
  server := by
    intro ρ server
    refine maintains_bind (maintains_act hquiet rfl) fun pid => ?_
    refine maintains_bind (keeps_assign (fun k _ _ hk => hquiet.tick k hk) hquiet trivial)
      fun _ => ?_
    exact maintains_update hquiet fun k hk => hupdate k _ (fun _ => rfl) hk

namespace Bystander

theorem ask (h : Bystander host env A inv) {query : Query} :
    Maintains env inv (Syscall.ask query : Py ρ query.Answer) :=
  maintains_ask h.quiet (h.plain _ rfl)

theorem act (h : Bystander host env A inv) {action : Act}
    (hop : (Op.act action).plain = true) :
    Maintains env inv (Syscall.act action : Py ρ action.Result) :=
  maintains_act h.quiet (h.plain _ hop)

theorem runLeg (h : Bystander host env A inv) {leg : Leg} {command : Command}
    (hcommand : A.calls (.act (.run command)))
    (hadd : ∀ k output v, avgTime output = some v → inv k →
      inv (k.updated fun s => s.addResult leg v)) :
    Maintains env inv (Syscall.runLeg host leg command : Py ρ Unit) := by
  refine maintains_bind (maintains_forRange (fun _ => ?_) h.marked) fun _ => maintains_pure
  refine maintains_tryException ?_ (h.cleanup ρ)
  refine maintains_bind (maintains_act h.quiet hcommand) fun result => ?_
  refine maintains_bind (maintains_when maintains_cont) fun _ => ?_
  cases htime : avgTime result.stdout with
  | none => exact maintains_pure
  | some v => exact maintains_update h.quiet fun k hk => hadd k _ v htime hk

theorem stopServer (h : Bystander host env A inv) :
    Maintains env inv (Syscall.stopServer : Py ρ Unit) := by
  refine maintains_bind (h.act rfl) fun _ => ?_
  exact maintains_tryAny (h.act rfl) (h.act rfl)

theorem ifRunning (h : Bystander host env A inv) {stop : Py ρ Unit}
    (hstop : Maintains env inv stop) : Maintains env inv (Syscall.ifRunning stop) := by
  refine maintains_bind keeps_vars fun syscallProc => maintains_when ?_
  exact maintains_bind h.ask fun code => maintains_when hstop

theorem forget (h : Bystander host env A inv) :
    Maintains env inv (assign (fun _ => none) : Py ρ Unit) :=
  keeps_assign (fun k _ _ hk => h.quiet.tick k hk) h.quiet (h.assigns _)

theorem runKernelTracepoint (h : Bystander host env A inv)
    (hleg : Maintains env inv (Syscall.runLeg host .kernelTracepoint .victim : Py ρ Unit)) :
    Maintains env inv (Syscall.runKernelTracepoint host : Py ρ Unit) := by
  refine maintains_bind h.forget fun _ => maintains_tryFinally ?_ ?_
  · refine maintains_bind (h.server ρ .kernel) fun _ => ?_
    exact maintains_bind h.ask fun _ => hleg
  · exact maintains_bind (h.ifRunning h.stopServer) fun _ => h.cleanup ρ

theorem bpftimeMethod (h : Bystander host env A inv)
    (hleg : Maintains env inv
      (Syscall.runLeg host .userspaceSyscall .bpftimeStart : Py Unit Unit)) :
    Maintains env inv (Syscall.bpftimeMethod host) := by
  refine maintains_tryException ?_ (h.cleanup Unit)
  refine maintains_bind (h.act rfl) fun loadResult => maintains_when ?_
  refine maintains_bind h.ask fun _ => ?_
  refine maintains_bind hleg fun _ => maintains_bind ?_ fun _ => ?_
  · refine maintains_tryException ?_ (h.cleanup Unit)
    refine maintains_bind (h.act rfl) fun unloadResult => ?_
    exact maintains_when (h.cleanup Unit)
  · exact maintains_bind maintains_read fun s => maintains_when maintains_ret

theorem preloadMethod (h : Bystander host env A inv)
    (hleg : Maintains env inv
      (Syscall.runLeg host .userspaceSyscall .victimWithAgent : Py Unit Unit)) :
    Maintains env inv (Syscall.preloadMethod host) := by
  refine maintains_bind h.ask fun server => ?_
  refine maintains_bind (maintains_when maintains_ret) fun _ => ?_
  refine maintains_bind h.ask fun agent => ?_
  refine maintains_bind (maintains_when maintains_ret) fun _ => ?_
  refine maintains_bind h.ask fun transformer => ?_
  refine maintains_bind (maintains_when maintains_ret) fun _ => ?_
  refine maintains_tryException (maintains_bind (h.server Unit .preloaded) fun _ => ?_)
    maintains_pure
  refine maintains_bind h.ask fun _ => ?_
  refine maintains_bind h.ask fun code => ?_
  refine maintains_bind (maintains_when maintains_ret) fun _ => ?_
  exact maintains_bind h.ask fun _ => hleg

/-- The `finally` block of `run_userspace_syscall`. -/
theorem lastBlock (h : Bystander host env A inv) :
    Maintains env inv (do
      Syscall.ifRunning (tryExcept Syscall.stopServer (onException (pure ())))
      cleanupProcesses host : Py ρ Unit) := by
  refine maintains_bind (h.ifRunning ?_) fun _ => h.cleanup ρ
  exact maintains_tryException h.stopServer maintains_pure

theorem runUserspaceSyscall (h : Bystander host env A inv)
    (hstart : Maintains env inv
      (Syscall.runLeg host .userspaceSyscall .bpftimeStart : Py Unit Unit))
    (hagent : Maintains env inv
      (Syscall.runLeg host .userspaceSyscall .victimWithAgent : Py Unit Unit)) :
    Maintains env inv (Syscall.runUserspaceSyscall host : Py ρ Unit) := by
  refine maintains_func (maintains_bind h.forget fun _ => maintains_tryFinally ?_ h.lastBlock)
  refine maintains_bind h.ask fun found => ?_
  exact maintains_bind (maintains_when (h.bpftimeMethod hstart)) fun _ => h.preloadMethod hagent

section Main

variable {P : PyMachine → Prop}

/-- Up to `run_userspace_syscall` the script keeps `inv`, and from there on `P`. -/
theorem mainBody (h : Bystander host env A inv) (hP : Bystander host env A P)
    (himp : ∀ k, inv k → P k)
    (hnative : Maintains env inv (Syscall.runLeg host .native .victim : Py ρ Unit))
    (hkernel : Maintains env inv (Syscall.runLeg host .kernelTracepoint .victim : Py ρ Unit))
    (huser : ∀ k, inv k → wp env (Syscall.runUserspaceSyscall host : Py ρ Unit)
      (fun _ => P) (fun _ => P) k) {k : PyMachine} (hk : inv k) :
    wp env (Syscall.mainBody host : Py ρ Unit) (fun _ => P) (fun _ => P) k := by
  have hbefore {β : Type} {m : Py ρ β} {f : β → Py ρ Unit} (hm : Maintains env inv m)
      (hf : ∀ a k, inv k → wp env (f a) (fun _ => P) (fun _ => P) k) :
      ∀ k, inv k → wp env (m >>= f) (fun _ => P) (fun _ => P) k :=
    fun k hk => wp_bind (wp_mono (hm k hk) hf fun _ _ hx => himp _ hx)
  refine hbefore hnative (fun _ => hbefore (h.cleanup ρ) fun _ => ?_) k hk
  refine hbefore (h.runKernelTracepoint hkernel) fun _ => ?_
  refine hbefore (h.cleanup ρ) fun _ => hbefore h.ask fun arm k hk => ?_
  refine wp_bind (wp_mono (wp_when (fun _ => huser k hk) fun _ => himp k hk) (fun _ => ?_)
    fun _ _ hx => hx)
  refine maintains_bind (hP.cleanup ρ) fun _ => ?_
  refine maintains_bind (hP.act rfl) fun _ => ?_
  exact maintains_bind (hP.act rfl) fun _ => hP.act rfl

theorem afterInit (h : Bystander host env A inv) (hP : Bystander host env A P)
    (himp : ∀ k, inv k → P k)
    (hbody : ∀ k, inv k → wp env (Syscall.mainBody host : Py Bool Unit)
      (fun _ => P) (fun _ => P) k) {ended : Bool} {k : PyMachine} (hk : inv k) :
    wp env (Syscall.afterInit host ended) (fun _ => P) (fun _ => P) k := by
  have hbefore {β : Type} {m : Py Bool β} {f : β → Py Bool Bool} (hm : Maintains env inv m)
      (hf : ∀ a k, inv k → wp env (f a) (fun _ => P) (fun _ => P) k) :
      ∀ k, inv k → wp env (m >>= f) (fun _ => P) (fun _ => P) k :=
    fun k hk => wp_bind (wp_mono (hm k hk) hf fun _ _ hx => himp _ hx)
  refine hbefore (maintains_when maintains_ret) (fun _ => hbefore h.ask fun root => ?_) k hk
  refine hbefore (maintains_when (maintains_bind (h.act rfl) fun _ => maintains_ret)) fun _ => ?_
  refine hbefore (h.cleanup Bool) fun _ k hk => wp_bind ?_
  refine wp_mono (ends_tryFinally (ends_tryExcept (hbody k hk) ?_) (hP.cleanup Bool))
    (fun _ _ hk => wp_pure hk) fun _ _ hk => hk
  intro e handler heq
  cases e <;> cases heq <;> exact maintains_pure

/-- `init_safe_pids` has come to `inv`; the script ends in `P`. -/
theorem program (hP : Bystander host env A P) {fuel : Nat}
    (hinit : wp env (initSafePids host fuel : Py Bool Bool) (fun _ => inv) (fun _ => P) start)
    (hafter : ∀ ended k, inv k →
      wp env (Syscall.afterInit host ended) (fun _ => P) (fun _ => P) k) :
    P (Syscall.program host fuel env start).2 := by
  have hmain : wp env (Syscall.main host fuel) (fun _ => P) (fun _ => P) start :=
    wp_bind (wp_mono hinit (fun ended k hk => hafter ended k hk) fun _ _ h => h)
  refine at_end (ends_tryExcept (wp_func (wp_mono hmain (fun _ _ h => h) fun x _ h => ?_)) ?_)
  · cases x <;> exact h
  · intro e handler heq
    rw [eq_of_onException heq]
    exact maintains_bind (maintains_tryAny (hP.cleanup Bool) maintains_pure)
      fun _ => maintains_pure

end Main

end Bystander

end BpftimeBenchmark.Bench.Syscall
