import BpftimeBenchmark.Bench.SslNginx
import BpftimeBenchmark.Bench.Syscount

/-!
What the exit status of the two programs says. Status 0 means that the benchmark
was done where no signal arrives, the checks at the start pass, and no exception
gets past the functions that run the legs.
-/

namespace BpftimeBenchmark.Bench

open Scripts Script

/-- An exception that nothing takes gives status 1. -/
def exitStatus : Except (Exit Exc Unit) Unit → Nat
  | .ok () => 0
  | .error (.raise (.systemExit code)) => code
  | .error _ => 1

/-- A command is not found. -/
def missesCommand : Call → Bool
  | ⟨.ask .nginxExecutable, false⟩ => true
  | ⟨.ask (.pathExists (.commonNginx 3)), false⟩ => true
  | ⟨.act (.run (.which _)), .error _⟩ => true
  | ⟨.act (.run (.which .wrk)), .ok result⟩ => decide (result.returncode ≠ 0)
  | _ => false

/-- A call outside the `try` statements of both programs raises. -/
def derailsMain : Call → Bool
  | ⟨.act .getcwd, .error _⟩ => true
  | ⟨.act (.abspath _), .error _⟩ => true
  | ⟨.act .chdir, .error _⟩ => true
  | ⟨.act .writeResults, .error _⟩ => true
  | ⟨.act .writeReport, .error _⟩ => true
  | _ => false

def confAnswer : Call → Option Bool
  | ⟨.ask (.pathExists .nginxConf), present⟩ => some present
  | _ => none

/-- Whether `nginx.conf` was there, each time it was looked for. -/
def confAnswers (calls : List Call) : List Bool := calls.filterMap confAnswer

/-- Every phase starts with a look for running processes. -/
def Call.isCheck (c : Call) : Bool := c.1 ≠ .act (.run .pgrepNginx)

/-- The calls of the checks at the start of `main`. -/
def checkCalls (calls : List Call) : List Call := calls.takeWhile Call.isCheck

/-- A check at the start did not find a command, a call derailed the program, or the
second look for `nginx.conf`, the one that counts, did not find it. -/
def Derailed (derails : Call → Bool) (calls : List Call) : Prop :=
  (∃ c ∈ checkCalls calls, missesCommand c = true) ∨ (∃ c ∈ calls, derails c = true) ∨
    (confAnswers calls)[1]? = some false

theorem mem_checkCalls_append {calls : List Call} {c : Call} (h : c ∈ checkCalls calls)
    (added : List Call) : c ∈ checkCalls (calls ++ added) := by
  unfold checkCalls at h ⊢
  rw [List.takeWhile_append]
  split
  · exact List.mem_append_left _ ((List.takeWhile_prefix _).subset h)
  · exact h

theorem Derailed.append {derails : Call → Bool} {calls : List Call} (h : Derailed derails calls)
    (added : List Call) : Derailed derails (calls ++ added) := by
  rcases h with ⟨c, hc, hmisses⟩ | ⟨c, hc, hderails⟩ | hconf
  · exact .inl ⟨c, mem_checkCalls_append hc added, hmisses⟩
  · exact .inr (.inl ⟨c, List.mem_append_left _ hc, hderails⟩)
  · obtain ⟨hlt, _⟩ := List.getElem?_eq_some_iff.mp hconf
    have happend : confAnswers (calls ++ added) = confAnswers calls ++ confAnswers added :=
      List.filterMap_append
    exact .inr (.inr (by rw [happend, List.getElem?_append_left hlt, hconf]))

/-- What an exception that reaches `main` is owed to. -/
def Blamed {σ : Type} (derails : Call → Bool) : Exc → PyMachine σ → Prop
  | .timeoutExpired, k => Derailed derails k.calls
  | .other, k => Derailed derails k.calls
  | .keyboardInterrupt, _ => False
  | .systemExit code, _ => code ≠ 0

section Blamed

variable {σ ρ α : Type} {derails : Call → Bool} {A : Footprint Op Vars}

theorem quiet_derailed (A : Footprint Op Vars) (derails : Call → Bool) :
    Quiet A (fun k : PyMachine σ => Derailed derails k.calls) where
  tick := fun _ hk => hk
  answered := fun _ _ _ _ hk => hk.append _
  assigned := fun _ _ _ hk => hk

theorem quiet_blamed (A : Footprint Op Vars) (derails : Call → Bool) (e : Exc) :
    Quiet A (Blamed derails e : PyMachine σ → Prop) := by
  cases e with
  | timeoutExpired => exact quiet_derailed A derails
  | other => exact quiet_derailed A derails
  | keyboardInterrupt => exact Quiet.const A False
  | systemExit code => exact Quiet.const A (code ≠ 0)

theorem Derailed.blamed {k : PyMachine σ} (h : Derailed derails k.calls) (f : Failure) :
    Blamed derails f.exc k := by
  cases f <;> exact h

/-- What `E` demands of an exception holds where a bad call has raised it, and
lasts. -/
structure Takes (bad : Call → Bool) (E : Exc → PyMachine σ → Prop) : Prop where
  quiet : ∀ A e, Quiet A (E e)
  answered : ∀ {k : PyMachine σ} {action : Act} {f : Failure},
    bad ⟨.act action, .error f⟩ = true → E f.exc (k.answered (.act action) (.error f))

/-- A failure that derails is to blame for its exception. -/
theorem takes_blamed {bad : Call → Bool} (hbad : ∀ c, bad c = true → derails c = true) :
    Takes bad (Blamed derails : Exc → PyMachine σ → Prop) where
  quiet A := quiet_blamed A derails
  answered := by
    intro k action f h
    exact Derailed.blamed
      (.inr (.inl ⟨_, List.mem_append_right _ (List.mem_singleton_self _), hbad _ h⟩)) f

theorem Takes.channel {bad : Call → Bool} {E : Exc → PyMachine σ → Prop} {env : PyEnv}
    (h : Takes bad E) (henv : env.Undisturbed) :
    Channel env A (onlyRaise E : Exit Exc ρ → PyMachine σ → Prop) := by
  refine Channel.of_undisturbed henv fun x => ?_
  cases x with
  | raise e => exact h.quiet A e
  | ret v => exact Quiet.const A False
  | brk => exact Quiet.const A False
  | cont => exact Quiet.const A False

end Blamed

section Confined

variable {σ ρ α : Type} {env : PyEnv} {E : Exc → PyMachine σ → Prop} {returns : Prop}

/-- Raises at most what `except Exception` takes. -/
abbrev Mild (env : PyEnv) (m : Py σ ρ α) : Prop :=
  Confined env (fun e _ => e.ordinary = true) True m

theorem confined_onException {body handler : Py σ ρ α}
    (hbody : Confined env (fun e _ => e.ordinary = true) returns body)
    (hhandler : Confined env E returns handler) :
    Confined env E returns (tryExcept body (onException handler)) := by
  refine confined_tryExcept hbody fun e k he => ?_
  cases e with
  | timeoutExpired => exact hhandler
  | other => exact hhandler
  | keyboardInterrupt => cases he
  | systemExit code => cases he

theorem confined_ignoring {body : Py σ ρ Unit}
    (hbody : Confined env (fun e _ => e.ordinary = true) returns body) :
    Confined env E returns (ignoring body) :=
  confined_onException hbody keeps_pure

theorem confined_onTimeout {body timedOut handler : Py σ ρ α}
    (hbody : Confined env (fun e _ => e.ordinary = true) returns body)
    (htimedOut : Confined env E returns timedOut) (hhandler : Confined env E returns handler) :
    Confined env E returns (tryExcept body (onTimeout timedOut handler)) := by
  refine confined_tryExcept hbody fun e k he => ?_
  cases e with
  | timeoutExpired => exact htimedOut
  | other => exact hhandler
  | keyboardInterrupt => cases he
  | systemExit code => cases he

theorem Tame.mild {A : Footprint Op Vars} {m : Py σ ρ α} (h : Tame env A m) :
    Confined env (fun e _ => e.ordinary = true) returns m :=
  Steady.confined h fun _ _ he => he

theorem Silent.confined {A : Footprint Op Vars} {m : Py σ ρ α} (h : Silent env A m) :
    Confined env E returns m :=
  Steady.confined h fun _ _ he => he.elim

variable (henv : env.Undisturbed)

include henv

theorem mild_act {action : Act} :
    Confined env (fun e _ => e.ordinary = true) returns
      (act action : Py σ ρ action.Result) :=
  (tame_act (A := Footprint.all) henv trivial).mild

theorem mild_popen {proc : Proc} :
    Confined env (fun e _ => e.ordinary = true) returns (popen proc : Py σ ρ Unit) :=
  (tame_popen (A := Footprint.all) henv trivial trivial).mild

theorem confined_ask {query : Query} :
    Confined env E returns (ask query : Py σ ρ query.Answer) :=
  (silent_ask (A := Footprint.all) henv trivial).confined

theorem confined_setProc {proc : Proc} {value : Bool} :
    Confined env E returns (setProc proc value : Py σ ρ Unit) :=
  (silent_setProc (A := Footprint.all) henv trivial).confined

omit henv in
theorem confined_holds {proc : Proc} : Confined env E returns (holds proc : Py σ ρ Bool) :=
  keeps_bind keeps_vars fun _ => keeps_pure

theorem confined_enterFunction : Confined env E returns (enterFunction : Py σ ρ Unit) :=
  confined_assign henv

theorem confined_terminateProcess {proc : Proc} :
    Confined env E returns (terminateProcess proc : Py σ ρ Unit) :=
  (silent_terminateProcess (A := Footprint.all) henv fun _ _ => trivial).confined

theorem confined_cleanupProcesses :
    Confined env E returns (cleanupProcesses : Py σ ρ Unit) :=
  (silent_cleanupProcesses (A := Footprint.all) henv fun _ _ => trivial).confined

theorem confined_terminateNginx : Confined env E returns (terminateNginx : Py σ ρ Unit) := by
  have h : Silent env Footprint.all (terminateNginx : Py σ ρ Unit) :=
    steady_terminateNginx (channel_onlyRaise henv _) fun _ _ => trivial
  exact h.confined

theorem confined_checkCommandExists {byPath : Bool} {cmd : Tool} :
    Confined env E returns (checkCommandExists byPath cmd : Py σ ρ Bool) := by
  have h : Silent env Footprint.all (checkCommandExists byPath cmd : Py σ ρ Bool) :=
    steady_checkCommandExists (channel_onlyRaise henv _) (fun _ _ => trivial) trivial
  exact h.confined

variable {bad : Call → Bool} (hE : Takes bad E)

include hE

theorem taken_act {action : Act} (h : ∀ f, bad ⟨.act action, .error f⟩ = true) :
    Confined env E returns (act action : Py σ ρ action.Result) := by
  have hsteady : Steady env Footprint.all (onlyRaise E) (act action : Py σ ρ action.Result) :=
    steady_act (hE.channel henv) trivial fun _ f => hE.answered (h f)
  exact hsteady.confined fun _ _ he => he

theorem taken_popen {proc : Proc} (h : ∀ f, bad ⟨.act (.popen proc), .error f⟩ = true) :
    Confined env E returns (popen proc : Py σ ρ Unit) :=
  keeps_bind (taken_act henv hE h) fun _ => confined_setProc henv

variable (habspath : ∀ path f, bad ⟨.act (.abspath path), .error f⟩ = true)

include habspath

theorem taken_removeAccessLog : Confined env E returns (removeAccessLog : Py σ ρ Unit) := by
  have hsteady : Steady env Footprint.all (onlyRaise E) (removeAccessLog : Py σ ρ Unit) :=
    steady_removeAccessLog (hE.channel henv) (fun _ _ => trivial)
      fun _ path f => hE.answered (habspath path f)
  exact hsteady.confined fun _ _ he => he

theorem taken_checkFileExists {path : Path} :
    Confined env E returns (checkFileExists path : Py σ ρ Bool) :=
  keeps_bind (taken_act henv hE fun f => habspath path f) fun _ => confined_ask henv

end Confined

section Main

variable {σ ρ : Type} {env : PyEnv} {derails : Call → Bool}

/-- The exits of the `try` block of `main`. -/
def mainExit (derails : Call → Bool) : Exit Exc Unit → PyMachine σ → Prop
  | .raise e => Blamed derails e
  | .ret _ => fun k => Derailed derails k.calls
  | .brk => fun _ => True
  | .cont => fun _ => True

theorem mainExit_of_leaving (x : Exit Exc Unit) (k : PyMachine σ)
    (hx : leaving (Blamed derails) False x k) : mainExit derails x k := by
  cases x with
  | raise e => exact hx
  | ret v => exact hx.elim
  | brk => trivial
  | cont => trivial

/-- `nginx.conf` has been looked for with these results, and no phase has begun. -/
structure Looked (answers : List Bool) (k : PyMachine σ) : Prop where
  answers : confAnswers k.calls = answers
  checking : ∀ c ∈ k.calls, Call.isCheck c = true

/-- What the checks do apart from looking for `nginx.conf`. -/
def apart : Footprint Op Vars where
  calls := fun op => op ≠ .ask (.pathExists .nginxConf) ∧ op ≠ .act (.run .pgrepNginx)
  assigns := fun _ => True

theorem checking_answered {k : PyMachine σ} {op : Op} {r : op.Reply}
    (h : ∀ c ∈ k.calls, Call.isCheck c = true) (hop : op ≠ .act (.run .pgrepNginx)) :
    ∀ c ∈ (k.answered op r).calls, Call.isCheck c = true := by
  intro c hc
  rcases List.mem_append.mp hc with hc | hc
  · exact h c hc
  · obtain rfl := List.mem_singleton.mp hc
    exact decide_eq_true hop

theorem quiet_looked (answers : List Bool) :
    Quiet apart (Looked answers : PyMachine σ → Prop) where
  tick := fun _ hk => ⟨hk.answers, hk.checking⟩
  answered := by
    intro k op r hop hk
    have hnone : confAnswer ⟨op, r⟩ = none := by
      unfold confAnswer
      split
      · rename_i heq
        cases heq
        exact absurd rfl hop.1
      · rfl
    refine ⟨?_, checking_answered hk.checking hop.2⟩
    show (k.calls ++ [(⟨op, r⟩ : Call)]).filterMap confAnswer = answers
    rw [List.filterMap_append, List.filterMap_cons_none hnone, List.filterMap_nil,
      List.append_nil]
    exact hk.answers
  assigned := fun _ _ _ hk => ⟨hk.answers, hk.checking⟩

/-- A command has not been found. -/
def Missed (k : PyMachine σ) : Prop := ∃ c ∈ k.calls, missesCommand c = true

theorem missed_answered {k : PyMachine σ} {op : Op} {r : op.Reply}
    (h : missesCommand ⟨op, r⟩ = true) : Missed (k.answered op r) :=
  ⟨_, List.mem_append_right _ (List.mem_singleton_self _), h⟩

/-- A check that does not find a command derails the program. -/
theorem Looked.derailed {answers : List Bool} {k : PyMachine σ} (hk : Looked answers k)
    (hmissed : Missed k) : Derailed derails k.calls := by
  obtain ⟨c, hc, hmisses⟩ := hmissed
  have hall : (k.calls ++ []).takeWhile Call.isCheck = k.calls ++ [] :=
    List.takeWhile_append_of_pos hk.checking
  refine .inl ⟨c, ?_, hmisses⟩
  rw [List.append_nil] at hall
  rw [checkCalls, hall]
  exact hc

variable (henv : env.Undisturbed) (hmain : ∀ c, derailsMain c = true → derails c = true)

include henv

/-- Where none of the common paths exists, the command is missed. -/
theorem wp_commonPaths {answers : List Bool} {k : PyMachine σ}
    {Q : Bool → PyMachine σ → Prop} {X : Exit Exc Bool → PyMachine σ → Prop}
    (hk : Looked answers k)
    (hnone : ∀ k', Looked answers k' → Missed k' → Q true k')
    (hfound : ∀ k', Looked answers k' → X (.ret true) k') :
    wp env (Script.forEach commonPaths fun path => do
      if ← ask (.pathExists path) then
        Script.ret true) Q X k := by
  -- the paths before the remaining ones were not there
  let inv (items : List Path) (k : PyMachine σ) : Prop := Looked answers k ∧
    ∃ before, before ++ items = commonPaths ∧
      ∀ path ∈ before, (⟨.ask (.pathExists path), false⟩ : Call) ∈ k.calls
  have hinv : inv commonPaths k := ⟨hk, [], rfl, by simp⟩
  refine wp_forEach ?_ ?_ commonPaths hinv
  · rintro path rest k ⟨hlooked, before, hsplit, hmissing⟩
    have hpath : path ∈ commonPaths := by simp [← hsplit]
    have hapart : apart.calls (.ask (.pathExists path)) := by
      simp only [apart, ne_eq, Op.ask.injEq, Query.pathExists.injEq, reduceCtorEq,
        not_false_eq_true, and_true]
      rintro rfl
      simp [commonPaths] at hpath
    refine wp_bind (wp_ask henv fun present => ?_)
    have hlooked' := (quiet_looked answers).answered k _ present hapart hlooked
    cases present with
    | true => exact wp_ret (hfound _ hlooked')
    | false =>
        refine wp_pure ⟨hlooked', before ++ [path], by simpa using hsplit, fun p hp => ?_⟩
        rcases List.mem_append.mp hp with hp | hp
        · exact List.mem_append_left _ (hmissing p hp)
        · obtain rfl := List.mem_singleton.mp hp
          exact List.mem_append_right _ (List.mem_singleton_self _)
  · rintro k ⟨hlooked, before, hsplit, hmissing⟩
    rw [List.append_nil] at hsplit
    refine hnone k hlooked ⟨_, hmissing (.commonNginx 3) ?_, rfl⟩
    simp [hsplit, commonPaths]

/-- A command that is not found is missed. -/
theorem wp_checkCommandExists {byPath : Bool} {cmd : Tool} {answers : List Bool}
    {k : PyMachine σ} {Q : Bool → PyMachine σ → Prop}
    {X : Exit Exc ρ → PyMachine σ → Prop} (hk : Looked answers k)
    (hQ : ∀ found k', Looked answers k' → (found = false → Missed k') → Q found k') :
    wp env (checkCommandExists byPath cmd) Q X k := by
  refine wp_func (@wp_tryExcept _ _ _ _ _ _ _ _ _ _ _ _ _
    (fun e k => e.ordinary = true ∧ Looked answers k ∧ Missed k) ?_ ?_)
  · have hwhich {k : PyMachine σ} (hk : Looked answers k) :
        wp env (do
          let result ← act (.run (.which cmd))
          Script.when (result.returncode ≠ 0 ∧ cmd = .nginx) do
            let _ ← Script.forEach commonPaths fun path => do
              if ← ask (.pathExists path) then
                Script.ret true
          pure (decide (result.returncode = 0)) : Py σ Bool Bool) Q
          (raising (fun e k => e.ordinary = true ∧ Looked answers k ∧ Missed k)
            (funcExit Q X)) k := by
      refine wp_bind (wp_act henv (fun result => ?_) fun f => ?_)
      · have hlooked := (quiet_looked answers).answered k (.act (.run (.which cmd)))
          (.ok result) (by simp [apart]) hk
        refine wp_bind (wp_when (fun hmissing => ?_) fun hfound => wp_pure (hQ _ _ hlooked ?_))
        · refine wp_bind (wp_commonPaths henv hlooked (fun k' hk' hd => wp_pure ?_)
            fun k' hk' => hQ true k' hk' (by simp))
          exact wp_pure (hQ _ k' hk' fun _ => hd)
        · intro hne
          have hcode : result.returncode ≠ 0 := by simpa using hne
          cases cmd with
          | nginx => exact absurd ⟨hcode, rfl⟩ hfound
          | wrk => exact missed_answered (by simp [missesCommand, hcode])
      · have hlooked := (quiet_looked answers).answered k (.act (.run (.which cmd)))
          (.error f) (by simp [apart]) hk
        refine ⟨f.exc_ordinary, hlooked, missed_answered ?_⟩
        cases cmd <;> rfl
    refine wp_bind (wp_when (fun _ => ?_) fun _ => hwhich hk)
    refine wp_bind (wp_ask henv fun found => ?_)
    have hlooked := (quiet_looked answers).answered k (.ask .nginxExecutable) found
      (by simp [apart]) hk
    refine wp_ret (hQ found _ hlooked ?_)
    rintro rfl
    exact missed_answered rfl
  · rintro e k ⟨he, hlooked, hd⟩
    cases e with
    | timeoutExpired => exact wp_pure (hQ false k hlooked fun _ => hd)
    | other => exact wp_pure (hQ false k hlooked fun _ => hd)
    | keyboardInterrupt => cases he
    | systemExit code => cases he

theorem wp_act_apart {action : Act} (h : ∀ f, derails ⟨.act action, .error f⟩ = true)
    (haction : action ≠ .run .pgrepNginx) {answers : List Bool} {k : PyMachine σ} (hk : Looked answers k)
    {Q : action.Result → PyMachine σ → Prop} (hQ : ∀ r k', Looked answers k' → Q r k') :
    wp env (act action) Q (mainExit derails) k := by
  have hsteady : Steady env apart (onlyRaise (Blamed derails))
      (act action : Py σ Unit action.Result) :=
    steady_act ((takes_blamed fun _ h => h).channel henv) (by simpa [apart] using haction)
      fun _ f => (takes_blamed fun _ h => h).answered (h f)
  exact hsteady.use (quiet_looked answers) hk hQ fun _ _ he _ => he

include hmain

theorem wp_checkFileExists {path : Path} (hpath : path ≠ .nginxConf) {answers : List Bool}
    {k : PyMachine σ} (hk : Looked answers k) {Q : Bool → PyMachine σ → Prop}
    (hQ : ∀ r k', Looked answers k' → Q r k') :
    wp env (checkFileExists path) Q (mainExit derails) k := by
  have hsteady : Steady env apart (onlyRaise (Blamed derails))
      (checkFileExists path : Py σ Unit Bool) := by
    have hchannel : Channel env apart (onlyRaise (Blamed derails) :
        Exit Exc Unit → PyMachine σ → Prop) := (takes_blamed hmain).channel henv
    refine steady_bind (steady_act hchannel (by simp [apart]) fun _ f => ?_) fun _ => ?_
    · exact (takes_blamed hmain).answered rfl
    · exact steady_ask hchannel (by simpa [apart] using hpath)
  exact hsteady.use (quiet_looked answers) hk hQ fun _ _ he _ => he

omit henv hmain in
theorem Looked.next {answers : List Bool} {k : PyMachine σ} (hk : Looked answers k)
    (present : Bool) :
    Looked (answers ++ [present]) (k.answered (.ask (.pathExists .nginxConf)) present) := by
  refine ⟨?_, checking_answered hk.checking (by simp)⟩
  show (k.calls ++ [_]).filterMap confAnswer = answers ++ [present]
  rw [List.filterMap_append]
  exact congrArg (· ++ [present]) hk.answers

/-- The checks after the first look for `nginx.conf`. -/
theorem wp_afterFirstLook {first : Bool} {k : PyMachine σ} (hk : Looked [first] k) :
    wp env (do
      let _ ← checkFileExists .agent
      let _ ← checkFileExists .syscallServer
      let _ ← checkFileExists .tracer
      let present ← ask (.pathExists .nginxConf)
      Script.when (present = false) (Script.ret ())
      let wrkInstalled ← checkCommandExists false .wrk
      Script.when (wrkInstalled = false) (Script.ret ()) : Py σ Unit Unit)
      (fun _ _ => True) (mainExit derails) k := by
  refine wp_bind (wp_checkFileExists henv hmain (by simp) hk fun _ k hk => wp_bind ?_)
  refine wp_checkFileExists henv hmain (by simp) hk fun _ k hk => wp_bind ?_
  refine wp_checkFileExists henv hmain (by simp) hk fun _ k hk => ?_
  refine wp_bind (wp_ask henv fun second => ?_)
  have hk := hk.next second
  refine wp_bind (wp_when (fun hmissing => wp_ret (.inr (.inr ?_))) fun _ => wp_bind ?_)
  · rw [hk.answers, hmissing]
    rfl
  · refine wp_checkCommandExists henv hk fun found k' hk' hd => wp_when ?_ fun _ => trivial
    exact fun hmissing => wp_ret (hk'.derailed (hd hmissing))

/-- `main` goes on where its checks pass. -/
theorem wp_checkEnvironment {byPath : Bool} {k : PyMachine σ} (hk : Looked [] k) :
    wp env (checkEnvironment byPath) (fun _ _ => True) (mainExit derails) k := by
  refine wp_bind (wp_act_apart henv (fun _ => hmain _ rfl) (by simp) hk
    fun _ k hk => wp_bind ?_)
  refine wp_checkCommandExists henv hk fun found k hk hd => wp_bind (wp_when ?_ ?_)
  · exact fun hmissing => wp_ret (hk.derailed (hd hmissing))
  intro _
  refine wp_bind (wp_ask henv fun first => ?_)
  have hk := hk.next first
  refine wp_bind (wp_when (fun _ => ?_) fun _ => wp_afterFirstLook henv hmain hk)
  -- elsewhere the program looks for its directory
  refine wp_bind (wp_act_apart henv (fun _ => hmain _ rfl) (by simp) hk fun _ k hk => ?_)
  have hask : Silent env apart (ask .inScriptDirectory : Py σ Unit Bool) :=
    silent_ask henv (by simp [apart])
  refine wp_bind (hask.use (quiet_looked _) hk fun inside k hk => ?_)
  refine wp_when (fun _ => ?_) fun _ => wp_afterFirstLook henv hmain hk
  refine wp_bind (wp_act_apart henv (fun _ => hmain _ rfl) (by simp) hk fun _ k hk => ?_)
  exact wp_act_apart henv (fun _ => hmain _ rfl) (by simp) hk fun _ k hk =>
    wp_afterFirstLook henv hmain hk

omit hmain in
/-- Where the body of `main` ends with its check, status 0 means that the check
passed or that the program was derailed. -/
theorem done_of_exitStatus {body interrupted : Py σ Unit Unit} {done : PyMachine σ → Prop}
    (hdone : Quiet Footprint.all done) {k k' : PyMachine σ}
    (hbody : wp env body (fun _ => done) (mainExit derails) k)
    {r : Except (Exit Exc Unit) Unit}
    (hrun : Script.func (Script.tryFinally
      (Script.tryExcept body (onInterrupt interrupted (pure ()))) cleanupProcesses) env k =
        (r, k')) (hexit : exitStatus r = 0) : done k' ∨ Derailed derails k'.calls := by
  let good (k : PyMachine σ) : Prop := done k ∨ Derailed derails k.calls
  let bad : Exit Exc Unit → PyMachine σ → Prop := fun x _ => exitStatus (.error x) ≠ 0
  have hgood : Quiet Footprint.all good := hdone.or (quiet_derailed _ _)
  have hclean {inv : PyMachine σ → Prop} (hquiet : Quiet Footprint.all inv)
      {X : Exit Exc Unit → PyMachine σ → Prop} {k : PyMachine σ} (hk : inv k) :
      wp env (cleanupProcesses : Py σ Unit Unit) (fun _ => inv) X k :=
    (silent_cleanupProcesses henv fun _ _ => trivial).use hquiet hk fun _ _ hk => hk
  have hmain : wp env (Script.func (Script.tryFinally
      (Script.tryExcept body (onInterrupt interrupted (pure ()))) cleanupProcesses))
      (fun _ => good) bad k := by
    refine wp_func (wp_tryFinally (wp_mono (Q := fun _ => good) (X := funcExit (fun _ => good) bad)
      (wp_tryExcept (R := Blamed derails) ?_ ?_) ?_ ?_))
    · refine wp_mono hbody (fun _ _ hk => .inl hk) fun x k hx => ?_
      cases x with
      | raise e => exact hx
      | ret v => exact .inr hx
      | brk => exact Nat.one_ne_zero
      | cont => exact Nat.one_ne_zero
    · intro e k he
      cases e with
      | timeoutExpired => exact wp_pure (.inr he)
      | other => exact wp_pure (.inr he)
      | keyboardInterrupt => exact he.elim
      | systemExit code => exact he
    · exact fun _ k hk => hclean hgood hk
    · intro x k hx
      cases x with
      | raise e => exact hclean (Quiet.const _ _) hx
      | ret v => exact hclean hgood hx
      | brk => exact hclean (Quiet.const _ _) hx
      | cont => exact hclean (Quiet.const _ _) hx
  unfold wp at hmain
  rw [hrun] at hmain
  cases r with
  | ok => exact hmain
  | error x => exact absurd hexit hmain

end Main

namespace SslNginx

/-- A call of the preflight of `run_bpftime_sslsniff` raises. -/
def derailsPreflight : Call → Bool
  | ⟨.act (.popen .preflightTracer), .error _⟩ => true
  | ⟨.act (.popen .preflightNginx), .error _⟩ => true
  | ⟨.act (.communicate .preflightTracer), .error _⟩ => true
  | ⟨.act (.communicate .preflightNginx), .error _⟩ => true
  | ⟨.act (.run (.curlTrace .preflightTracer)), .error _⟩ => true
  | _ => false

def derails (c : Call) : Bool := derailsMain c || derailsPreflight c

theorem derails_of_main (c : Call) (h : derailsMain c = true) : derails c = true := by
  rw [derails, h, Bool.true_or]

/-- A call of a leg, or the one that saves the results, raises outside the `try`
statements of the leg. -/
def escapes : Call → Bool
  | ⟨.act .getcwd, .error _⟩ => true
  | ⟨.act (.abspath _), .error _⟩ => true
  | ⟨.act .writeResults, .error _⟩ => true
  | c => derailsPreflight c

theorem derails_of_escapes (c : Call) (h : escapes c = true) : derails c = true := by
  unfold escapes at h
  split at h
  · rfl
  · rfl
  · rfl
  · rw [derails, h, Bool.or_true]

section Confined

variable {ρ : Type} {env : PyEnv} {E : Exc → PyMachine State → Prop} {returns : Prop}
  (henv : env.Undisturbed)

include henv

theorem confined_markFailed {leg : Leg} {reason : Reason} :
    Confined env E returns (markFailed leg reason : Py State ρ Unit) := by
  refine keeps_bind (confined_update henv) fun _ => keeps_bind keeps_read fun _ => ?_
  exact keeps_when fun _ => confined_update henv

theorem confined_record {leg : Leg} {v : ℚ} :
    Confined env E returns (record leg v : Py State ρ Unit) :=
  keeps_bind (confined_update henv) fun _ => confined_update henv

theorem confined_appendTrace {leg : Leg} {summary : Summary} :
    Confined env E returns (appendTrace leg summary : Py State ρ Summary) :=
  keeps_bind (confined_update henv) fun _ => keeps_pure

theorem mild_measure {leg : Leg} {next : Py State ρ Unit} (hnext : Mild env next) :
    Mild env (measure leg next) := by
  refine keeps_bind (mild_act henv) fun result => ?_
  refine keeps_bind (keeps_when fun _ => ?_) fun _ => ?_
  · exact keeps_bind (confined_markFailed henv) fun _ => confined_cont
  · cases throughput result.stdout with
    | some v => exact keeps_bind (confined_record henv) fun _ => hnext
    | none => exact confined_markFailed henv

theorem mild_startNginx : Mild env startNginx := by
  refine keeps_bind (mild_popen henv) fun _ => keeps_bind (confined_ask henv) fun _ => ?_
  refine keeps_bind (confined_ask henv) fun _ => keeps_when fun _ => ?_
  refine keeps_bind (mild_act henv) fun _ => ?_
  refine keeps_bind (keeps_when fun _ => mild_act henv) fun _ => ?_
  exact keeps_bind (keeps_when fun _ => mild_act henv) fun _ => confined_ret

theorem mild_baselineRuns (cfg : Config) : Mild env (baselineRuns cfg : Py State ρ Unit) := by
  refine keeps_bind (confined_forRange (fun _ => ?_) fun _ _ he => he) fun _ => keeps_pure
  exact confined_onTimeout (mild_measure henv keeps_pure) (confined_markFailed henv)
    (confined_markFailed henv)

theorem mild_kernelRuns (cfg : Config) : Mild env (kernelRuns cfg : Py State ρ Unit) := by
  refine keeps_bind (confined_forRange (fun _ => ?_) fun _ _ he => he) fun _ => keeps_pure
  refine keeps_bind (confined_setProc henv) fun _ => ?_
  have hfinal : Mild env (do
      terminateProcess (.tracer .kernel)
      let _ ← act (.run .sudoPkillTracer)
      ask .sleep : Py State ρ Unit) :=
    keeps_bind (confined_terminateProcess henv) fun _ =>
      keeps_bind (mild_act henv) fun _ => confined_ask henv
  refine confined_tryFinally (Y := fun _ _ => False) ?_ hfinal fun _ _ he => he.elim
  refine confined_onTimeout ?_ (confined_markFailed henv) (confined_markFailed henv)
  refine keeps_bind (mild_popen henv) fun _ => keeps_bind (confined_ask henv) fun _ => ?_
  refine keeps_bind (confined_ask henv) fun _ => keeps_bind (keeps_when fun _ => ?_) fun _ => ?_
  · exact keeps_bind (confined_markFailed henv) fun _ => confined_cont
  · exact mild_measure henv keeps_pure

theorem confined_collectTracePreflight {leg : Leg} :
    Confined env E returns (collectTracePreflight leg : Py State ρ Summary) := by
  refine confined_func (keeps_bind (confined_setProc henv) fun _ => ?_)
  refine confined_onException ?_ ?_
  · refine keeps_bind (mild_popen henv) fun _ => keeps_bind (confined_ask henv) fun _ => ?_
    refine keeps_bind (confined_ask henv) fun _ => keeps_bind (keeps_when fun _ => ?_) fun _ => ?_
    · refine keeps_bind (mild_act henv) fun _ => ?_
      exact keeps_bind (confined_appendTrace henv) fun _ => confined_ret
    · refine keeps_bind (mild_act henv) fun _ => ?_
      refine keeps_bind (confined_terminateProcess henv) fun _ => ?_
      exact keeps_bind (mild_act henv) fun _ => confined_appendTrace henv
  · refine keeps_bind (confined_terminateProcess henv) fun _ => ?_
    refine keeps_bind confined_holds fun _ => keeps_bind (keeps_when fun _ => ?_) fun _ => ?_
    · exact keeps_bind (confined_ask henv) fun _ => keeps_pure
    · exact confined_appendTrace henv

theorem mild_kernelTraced (cfg : Config) : Mild env (kernelTraced cfg) := by
  refine keeps_bind (confined_collectTracePreflight henv) fun _ => ?_
  refine keeps_bind (mild_act henv) fun _ => keeps_bind (keeps_when fun _ => ?_) fun _ => ?_
  · exact keeps_bind (confined_markFailed henv) fun _ => confined_ret
  · exact mild_kernelRuns henv cfg

theorem mild_bpftimeTry : Mild env (bpftimeTry : Py State ρ Unit) := by
  have hfails {reason : Reason} :
      Mild env (do
        markFailed .bpftimeSslsniff reason
        Script.cont : Py State ρ Unit) :=
    keeps_bind (confined_markFailed henv) fun _ => confined_cont
  have hready : Tame env Footprint.all (waitForNginxReady .nginx : Py State ρ Bool) :=
    steady_waitForNginxReady (channel_onlyRaise henv _) (fun _ _ => trivial)
      fun _ f => f.exc_ordinary
  refine keeps_bind (mild_popen henv) fun _ => keeps_bind (confined_ask henv) fun _ => ?_
  refine keeps_bind (confined_ask henv) fun _ => keeps_bind (keeps_when fun _ => hfails) fun _ => ?_
  refine keeps_bind (mild_popen henv) fun _ => keeps_bind (confined_ask henv) fun _ => ?_
  refine keeps_bind hready.mild fun _ => keeps_bind (keeps_when fun _ => hfails) fun _ => ?_
  exact mild_measure henv confined_brk

/-- An attempt takes care of its exceptions itself. -/
theorem confined_bpftimeAttempt (attempt : Nat) :
    Confined env (fun _ _ => False) True (bpftimeAttempt attempt : Py State ρ Unit) := by
  refine keeps_bind (keeps_when fun _ => confined_update henv) fun _ => ?_
  refine keeps_bind (confined_setProc henv) fun _ => ?_
  refine keeps_bind (confined_setProc henv) fun _ => ?_
  refine confined_tryFinally (Y := fun _ _ => False) ?_ ?_ fun _ _ he => he.elim
  · exact confined_onTimeout (mild_bpftimeTry henv) (confined_markFailed henv)
      (confined_markFailed henv)
  · refine keeps_bind (confined_ignoring (keeps_bind confined_holds fun _ => ?_)) fun _ => ?_
    · refine keeps_ite (fun _ => ?_) fun _ => keeps_pure
      exact keeps_bind (mild_act henv) fun _ => mild_act henv
    · refine keeps_bind (confined_terminateProcess henv) fun _ => ?_
      exact confined_cleanupProcesses henv

variable (hE : Takes escapes E)

include hE

theorem taken_waitForNginxReady :
    Confined env E returns
      (waitForNginxReady .preflightNginx : Py State ρ Bool) := by
  have hsteady : Steady env Footprint.all (onlyRaise E)
      (waitForNginxReady .preflightNginx : Py State ρ Bool) :=
    steady_waitForNginxReady (hE.channel henv) (fun _ _ => trivial)
      fun _ _ => hE.answered rfl
  exact hsteady.confined fun _ _ he => he

/-- The preflight is outside every `try` statement with handlers. -/
theorem taken_bpftimePreflight : Confined env E True bpftimePreflight := by
  have hfails {reason : Reason} :
      Confined env E True (do
        markFailed .bpftimeSslsniff reason
        Script.ret () : Py State Unit Unit) :=
    keeps_bind (confined_markFailed henv) fun _ => confined_ret
  have hfinal : Silent env Footprint.all (do
      terminateProcess .preflightNginx
      terminateProcess .preflightTracer
      cleanupProcesses : Py State Unit Unit) :=
    steady_bind (silent_terminateProcess henv fun _ _ => trivial) fun _ =>
      steady_bind (silent_terminateProcess henv fun _ _ => trivial) fun _ =>
        silent_cleanupProcesses henv fun _ _ => trivial
  refine confined_tryFinally (Y := E) ?_ hfinal.confined fun e k he => ?_
  · refine keeps_bind (taken_popen henv hE fun _ => rfl) fun _ => ?_
    refine keeps_bind (confined_ask henv) fun _ => keeps_bind (confined_ask henv) fun _ => ?_
    refine keeps_bind (keeps_when fun _ => ?_) fun _ => ?_
    · refine keeps_bind (taken_act henv hE fun _ => rfl) fun _ => ?_
      exact keeps_bind (confined_appendTrace henv) fun _ => hfails
    refine keeps_bind (taken_popen henv hE fun _ => rfl) fun _ => ?_
    refine keeps_bind (confined_ask henv) fun _ => ?_
    refine keeps_bind (taken_waitForNginxReady henv hE) fun _ => ?_
    refine keeps_bind (keeps_when fun _ => hfails) fun _ => ?_
    refine keeps_bind (taken_act henv hE fun _ => rfl) fun _ => ?_
    refine keeps_bind (confined_terminateProcess henv) fun _ => ?_
    refine keeps_bind (taken_act henv hE fun _ => rfl) fun _ => ?_
    exact keeps_bind (confined_appendTrace henv) fun _ => keeps_when fun _ => hfails
  · exact hfinal.use (hE.quiet _ e) he fun _ _ he => he

theorem taken_bpftimeTraced (cfg : Config) :
    Confined env E True (bpftimeTraced cfg) := by
  refine keeps_bind (taken_bpftimePreflight henv hE) fun _ => ?_
  have hruns : Confined env (fun _ _ => False) True (bpftimeRuns cfg : Py State Unit Unit) := by
    refine keeps_bind (confined_forRange (fun _ => ?_) fun _ _ he => he) fun _ => keeps_pure
    refine keeps_bind (confined_forRange (fun attempt => ?_) fun _ _ he => he)
      fun _ => keeps_pure
    exact confined_bpftimeAttempt henv attempt
  exact hruns.mono fun _ _ he => he.elim

/-- The part of a leg in which nginx runs throughout. -/
theorem taken_served {body : Py State Unit Unit} (hbody : Mild env body) :
    Confined env E True (do
      act (.abspath .nginxConf)
      Script.tryFinally (Script.tryExcept body (onException (pure ()))) terminateNginx) := by
  refine keeps_bind (taken_act henv hE fun _ => rfl) fun _ => ?_
  exact confined_tryFinally (Y := fun _ _ => False) (confined_ignoring hbody)
    (confined_terminateNginx henv) fun _ _ he => he.elim

theorem taken_runBaseline (cfg : Config) :
    Confined env E returns (runBaseline cfg : Py State ρ Unit) := by
  refine confined_func (keeps_bind (confined_enterFunction henv) fun _ => ?_)
  refine keeps_bind (confined_cleanupProcesses henv) fun _ => ?_
  refine keeps_bind (taken_removeAccessLog henv hE fun _ _ => rfl) fun _ => ?_
  refine keeps_bind (confined_checkCommandExists henv) fun _ => ?_
  refine keeps_bind (taken_act henv hE fun _ => rfl) fun _ => ?_
  refine keeps_bind (confined_ask henv) fun _ => keeps_bind (confined_ask henv) fun _ => ?_
  refine keeps_bind (keeps_when fun _ => confined_ret) fun _ => taken_served henv hE ?_
  refine keeps_bind (mild_startNginx henv) fun _ => ?_
  refine keeps_bind (confined_ignoring ?_) fun _ => mild_baselineRuns henv cfg
  exact keeps_bind (mild_act henv) fun _ => keeps_pure

theorem taken_runKernelSslsniff (cfg : Config) :
    Confined env E returns (runKernelSslsniff cfg : Py State ρ Unit) := by
  refine confined_func (keeps_bind (confined_enterFunction henv) fun _ => ?_)
  refine keeps_bind (confined_cleanupProcesses henv) fun _ => ?_
  refine keeps_bind (taken_removeAccessLog henv hE fun _ _ => rfl) fun _ => ?_
  refine keeps_bind (taken_checkFileExists henv hE fun _ _ => rfl) fun _ => ?_
  refine keeps_bind (keeps_when fun _ => confined_ret) fun _ => ?_
  refine keeps_bind (confined_ask henv) fun _ => ?_
  refine keeps_bind (keeps_when fun _ => confined_ret) fun _ => taken_served henv hE ?_
  exact keeps_bind (mild_startNginx henv) fun _ => mild_kernelTraced henv cfg

theorem taken_bpftimeChecks : Confined env E True bpftimeChecks := by
  refine keeps_bind (confined_enterFunction henv) fun _ => ?_
  refine keeps_bind (confined_cleanupProcesses henv) fun _ => ?_
  refine keeps_bind (taken_removeAccessLog henv hE fun _ _ => rfl) fun _ => ?_
  refine keeps_bind (taken_checkFileExists henv hE fun _ _ => rfl) fun _ => ?_
  refine keeps_bind (keeps_when fun _ => confined_ret) fun _ => ?_
  refine keeps_bind (taken_checkFileExists henv hE fun _ _ => rfl) fun _ => ?_
  refine keeps_bind (keeps_when fun _ => confined_ret) fun _ => ?_
  refine keeps_bind (taken_checkFileExists henv hE fun _ _ => rfl) fun _ => ?_
  refine keeps_bind (keeps_when fun _ => confined_ret) fun _ => ?_
  refine keeps_bind (confined_ask henv) fun _ => ?_
  exact keeps_bind (keeps_when fun _ => confined_ret) fun _ => taken_act henv hE fun _ => rfl

theorem taken_runBpftimeSslsniff (cfg : Config) :
    Confined env E returns (runBpftimeSslsniff cfg : Py State ρ Unit) :=
  confined_func (keeps_bind (taken_bpftimeChecks henv hE) fun _ =>
    taken_bpftimeTraced henv hE cfg)

/-- A phase that is not known ends the program with status 1. -/
theorem taken_runPhases (cfg : Config)
    (hunknown : ∀ name ∈ cfg.benchOrder, benchResultKeys name = none →
      ∀ k, E (.systemExit 1) k) :
    Keeps env (fun _ => True) (onlyRaise E) (runPhases cfg : Py State ρ Unit) := by
  refine keeps_bind (raises_forEach fun name hname => ?_) fun _ => keeps_pure
  unfold runPhase
  cases hkey : benchResultKeys name with
  | none => exact keeps_raise fun k _ => hunknown name hname hkey k
  | some leg =>
      cases leg with
      | baseline => exact taken_runBaseline henv hE cfg
      | kernelSslsniff => exact taken_runKernelSslsniff henv hE cfg
      | bpftimeSslsniff => exact taken_runBpftimeSslsniff henv hE cfg

end Confined

/-- Every phase that `BENCH_ORDER` names has the runs it was to have. -/
def Done (cfg : Config) (s : State) : Prop :=
  ∀ name ∈ cfg.benchOrder, ∀ leg, benchResultKeys name = some leg →
    (s.runStats leg).targetRuns ≤ (s.runStats leg).validRuns

theorem done_of_not_benchmarkFailed {cfg : Config} {s : State}
    (h : benchmarkFailed cfg s = false) : Done cfg s := by
  intro name hname leg hleg
  have hactive : leg ∈ activeResultKeys cfg := List.mem_filterMap.mpr ⟨name, hname, hleg⟩
  have hleg : leg ∈ [Leg.baseline, .kernelSslsniff, .bpftimeSslsniff] := by
    cases leg <;> simp
  have henough := List.any_eq_false.mp h leg hleg
  simpa [hactive] using henough

theorem quiet_done (cfg : Config) :
    Quiet Footprint.all (fun k : PyMachine State => Done cfg k.state) where
  tick := fun _ hk => hk
  answered := fun _ _ _ _ hk => hk
  assigned := fun _ _ _ hk => hk

theorem wp_mainBody {env : PyEnv} (henv : env.Undisturbed) (cfg : Config) :
    wp env (mainBody cfg) (fun _ k => Done cfg k.state) (mainExit derails) (start cfg) := by
  have hE : Takes escapes (Blamed derails : Exc → PyMachine State → Prop) :=
    takes_blamed derails_of_escapes
  have hwrite : Confined env (Blamed derails) False (act .writeResults : Py State Unit Unit) :=
    taken_act henv hE fun _ => rfl
  have hlooked : Looked [] ((start cfg).updated (setTargets cfg)) := ⟨rfl, nofun⟩
  refine wp_bind (wp_update_of henv (wp_bind ?_))
  refine wp_mono (wp_checkEnvironment henv derails_of_main hlooked) (fun _ k _ => wp_bind ?_)
    fun _ _ hx => hx
  have hphases : Confined env (Blamed derails) False (runPhases cfg : Py State Unit Unit) :=
    keeps_mono (taken_runPhases henv hE cfg fun _ _ _ _ => Nat.one_ne_zero) leaving_of_onlyRaise
  refine wp_mono (hphases k trivial) (fun _ k _ => wp_bind ?_) mainExit_of_leaving
  refine wp_mono (hwrite k trivial) (fun _ k _ => wp_bind (wp_read (wp_when ?_ ?_)))
    mainExit_of_leaving
  · exact fun _ => wp_raise Nat.one_ne_zero
  · exact fun hnot => done_of_not_benchmarkFailed (by simpa using hnot)

end SslNginx

namespace Syscount

/-- The end of a bpftime run fails: `syscount` cannot be ended or its logs cannot be
read. -/
def derailsFinally : Call → Bool
  | ⟨.act (.wait (.tracer .userspace) .own), .error .other⟩ => true
  | ⟨.act (.terminate (.tracer .userspace)), .error _⟩ => true
  | ⟨.act (.wait (.tracer .userspace) .afterTerminate), .error .other⟩ => true
  | ⟨.act (.kill (.tracer .userspace)), .error _⟩ => true
  | ⟨.act (.wait (.tracer .userspace) .afterKill), .error _⟩ => true
  | ⟨.act (.closeTraceLogs .userspace), .error _⟩ => true
  | ⟨.act (.readText (.traceStdout .userspace)), .error _⟩ => true
  | ⟨.act (.readText (.traceStderr .userspace)), .error _⟩ => true
  | ⟨.act (.stat (.traceStdout .userspace)), .error _⟩ => true
  | ⟨.act (.stat (.traceStderr .userspace)), .error _⟩ => true
  | _ => false

def derails (c : Call) : Bool := derailsMain c || derailsFinally c

theorem derails_of_main (c : Call) (h : derailsMain c = true) : derails c = true := by
  rw [derails, h, Bool.true_or]

/-- What the `finally` block of a traced run may raise: under bpftime nothing takes
it before `main`. -/
def Endured (mode : Mode) (e : Exc) (k : PyMachine State) : Prop :=
  e.ordinary = true ∧ (mode = .userspace → Derailed derails k.calls)

theorem Endured.blamed (e : Exc) (k : PyMachine State) (h : Endured .userspace e k) :
    Blamed derails e k := by
  cases e with
  | timeoutExpired => exact h.2 rfl
  | other => exact h.2 rfl
  | keyboardInterrupt => cases h.1
  | systemExit code => cases h.1

theorem takes_derails : Takes derails (Blamed derails : Exc → PyMachine State → Prop) :=
  takes_blamed fun _ h => h

section Confined

variable {ρ α : Type} {env : PyEnv} {E : Exc → PyMachine State → Prop} {returns : Prop}

theorem confined_onTimeoutOnly {body handler : Py State ρ α}
    (hbody : Confined env (fun e k => e = .timeoutExpired ∨ E e k) returns body)
    (hhandler : Confined env E returns handler) :
    Confined env E returns (tryExcept body (onTimeoutOnly handler)) := by
  refine confined_tryExcept hbody fun e k he => ?_
  cases e with
  | timeoutExpired => exact hhandler
  | other => exact he.resolve_left (by simp)
  | keyboardInterrupt => exact he.resolve_left (by simp)
  | systemExit code => exact he.resolve_left (by simp)

variable (henv : env.Undisturbed)

include henv

theorem confined_markFailed {leg : Leg} {reason : Reason} :
    Confined env E returns (markFailed leg reason : Py State ρ Unit) :=
  keeps_bind (confined_update henv) fun _ => confined_update henv

theorem confined_record {leg : Leg} {v : ℚ} :
    Confined env E returns (record leg v : Py State ρ Unit) :=
  keeps_bind (confined_update henv) fun _ => confined_update henv

theorem confined_clearRun {mode : Mode} :
    Confined env E returns (clearRun mode : Py State ρ Unit) := by
  refine keeps_bind (confined_setProc henv) fun _ => ?_
  exact keeps_bind (confined_assign henv) fun _ => confined_assign henv

theorem mild_fails {leg : Leg} {reason : Reason} :
    Mild env (do
      markFailed leg reason
      Script.cont : Py State ρ Unit) :=
  keeps_bind (confined_markFailed henv) fun _ => confined_cont

theorem mild_measureTraced {leg : Leg} {mode : Mode} :
    Mild env (measureTraced leg mode : Py State ρ Unit) := by
  refine keeps_bind (mild_act henv) fun _ => keeps_bind (confined_assign henv) fun _ => ?_
  refine keeps_bind (mild_popen henv) fun _ => keeps_bind (confined_ask henv) fun _ => ?_
  refine keeps_bind (confined_ask henv) fun _ => ?_
  refine keeps_bind (keeps_when fun _ => mild_fails henv) fun _ => ?_
  refine keeps_bind (mild_act henv) fun _ => ?_
  refine keeps_bind (keeps_when fun _ => mild_fails henv) fun _ => ?_
  refine keeps_bind (confined_assign henv) fun _ => keeps_when fun _ => ?_
  exact confined_markFailed henv

theorem mild_startUserbpf {leg : Leg} {targetPid : Bool} :
    Mild env (startUserbpf leg targetPid : Py State ρ Unit) := by
  have hdirectories : Silent env Footprint.all (prepareNginxDirectories : Py State ρ Unit) :=
    steady_prepareNginxDirectories (channel_onlyRaise henv _) fun _ _ => trivial
  have hreport : Tame env Footprint.all (reportNginxExit : Py State ρ Unit) :=
    steady_reportNginxExit (channel_onlyRaise henv _) (fun _ _ => trivial)
      fun f _ => f.exc_ordinary
  refine keeps_bind (confined_ask henv) fun _ => ?_
  refine keeps_bind (keeps_when fun _ => confined_cont) fun _ => ?_
  refine keeps_bind (mild_act henv) fun _ => keeps_bind hdirectories.confined fun _ => ?_
  refine keeps_bind (mild_act henv) fun _ => keeps_bind (mild_popen henv) fun _ => ?_
  refine keeps_bind (confined_ask henv) fun _ => keeps_bind (confined_ask henv) fun _ => ?_
  refine keeps_bind (keeps_when fun _ => ?_) fun _ => ?_
  · exact keeps_bind hreport.mild fun _ => mild_fails henv
  refine keeps_bind (mild_act henv) fun _ => ?_
  refine keeps_bind (keeps_when fun _ => mild_fails henv) fun _ => ?_
  exact keeps_bind (mild_act henv) fun _ => mild_act henv

theorem endured_act {mode : Mode} {action : Act}
    (h : ∀ f, mode = .userspace → derails ⟨.act action, .error f⟩ = true) :
    Confined env (Endured mode) returns (act action : Py State ρ action.Result) := by
  refine fun k _ => wp_act henv (fun _ => trivial) fun f => ⟨f.exc_ordinary, fun hmode => ?_⟩
  exact .inr (.inl ⟨_, List.mem_append_right _ (List.mem_singleton_self _), h f hmode⟩)

/-- A timeout of `wait` is left to a handler. -/
theorem endured_wait {mode : Mode} {wait : Wait}
    (h : mode = .userspace →
      derails ⟨.act (.wait (.tracer mode) wait), .error .other⟩ = true) :
    Confined env (fun e k => e = .timeoutExpired ∨ Endured mode e k) returns
      (act (.wait (.tracer mode) wait) : Py State ρ Unit) := by
  refine fun k _ => wp_act henv (fun _ => trivial) fun f => ?_
  cases f with
  | timeoutExpired => exact .inl rfl
  | other =>
      refine .inr ⟨rfl, fun hmode => ?_⟩
      exact .inr (.inl ⟨_, List.mem_append_right _ (List.mem_singleton_self _), h hmode⟩)

theorem endured_awaitSyscount {leg : Leg} {mode : Mode} :
    Confined env (Endured mode) returns
      (awaitSyscount leg mode : Py State ρ (Option Int)) := by
  refine keeps_bind (confined_onTimeoutOnly (endured_wait henv ?_) ?_) fun _ => confined_ask henv
  · rintro rfl
    rfl
  refine keeps_bind (confined_markFailed henv) fun _ => keeps_bind (endured_act henv ?_) fun _ => ?_
  · rintro _ rfl
    rfl
  refine confined_onTimeoutOnly (endured_wait henv ?_) ?_
  · rintro rfl
    rfl
  refine keeps_bind (endured_act henv ?_) fun _ => endured_act henv ?_
  · rintro _ rfl
    rfl
  · rintro _ rfl
    rfl

theorem endured_summarizeSyscountLog {leg : Leg} {mode : Mode} {i : Nat}
    {returncode : Option Int} {require : Bool} :
    Confined env (Endured mode) returns
      (summarizeSyscountLog leg mode i returncode require : Py State ρ Summary) := by
  have hread {path : Path} (h : path = .traceStdout mode ∨ path = .traceStderr mode) :
      Confined env (Endured mode) returns (readLog path : Py State ρ Text) := by
    refine keeps_bind (confined_ask henv) fun _ => keeps_ite (fun _ => ?_) fun _ => keeps_pure
    refine endured_act henv ?_
    rintro _ rfl
    rcases h with rfl | rfl <;> rfl
  have hstat {path : Path} (h : path = .traceStdout mode ∨ path = .traceStderr mode) :
      Confined env (Endured mode) returns (statLog path : Py State ρ Unit) := by
    refine keeps_bind (confined_ask henv) fun _ => keeps_when fun _ => endured_act henv ?_
    rintro _ rfl
    rcases h with rfl | rfl <;> rfl
  refine keeps_bind (hread (.inl rfl)) fun _ => keeps_bind (hread (.inr rfl)) fun _ => ?_
  refine keeps_bind (hstat (.inl rfl)) fun _ => keeps_bind (hstat (.inr rfl)) fun _ => ?_
  exact keeps_bind (confined_update henv) fun _ => keeps_pure

theorem endured_finishTraced {leg : Leg} {mode : Mode} {i : Nat} {require : Bool} :
    Confined env (Endured mode) returns (finishTraced leg mode i require : Py State ρ Unit) := by
  refine keeps_bind keeps_vars fun v => keeps_when fun _ => ?_
  have hsummary : Confined env (Endured mode) returns
      (terminateAndSummarizeSyscount leg mode i require : Py State ρ Summary) := by
    refine keeps_bind (keeps_bind confined_holds fun _ => ?_) fun _ => ?_
    · exact keeps_ite (fun _ => endured_awaitSyscount henv) fun _ => keeps_pure
    · refine keeps_bind (endured_act henv ?_) fun _ => endured_summarizeSyscountLog henv
      rintro _ rfl
      rfl
  refine keeps_bind hsummary fun summary => ?_
  cases v.reqPerSec with
  | none => exact keeps_pure
  | some v =>
      exact keeps_ite (fun _ => confined_record henv) fun _ => confined_markFailed henv

theorem blamed_startNginx (cfg : Config) :
    Confined env (Blamed derails) returns (startNginx cfg : Py State ρ (Bool × Option Text)) := by
  have hsteady : Steady env Footprint.all (onlyRaise (Blamed derails))
      (startNginx cfg : Py State ρ (Bool × Option Text)) :=
    steady_startNginx (takes_derails.channel henv) (fun _ _ => trivial) trivial trivial
      (fun _ _ => takes_derails.answered rfl) fun _ _ _ => takes_derails.answered rfl
  exact hsteady.confined fun _ _ he => he

theorem confined_stopNginx : Confined env E returns (stopNginx : Py State ρ Unit) :=
  keeps_bind confined_holds fun _ => keeps_when fun _ => confined_terminateNginx henv

theorem mild_nativeRuns (cfg : Config) : Mild env (nativeRuns cfg : Py State ρ Unit) := by
  refine keeps_bind (confined_forRange (fun _ => ?_) fun _ _ he => he) fun _ => keeps_pure
  refine confined_onTimeout ?_ (confined_markFailed henv) (confined_markFailed henv)
  refine keeps_bind (mild_act henv) fun result => ?_
  refine keeps_bind (keeps_when fun _ => mild_fails henv) fun _ => ?_
  cases throughput result.stdout with
  | some v => exact confined_record henv
  | none => exact confined_markFailed henv

theorem mild_kernelRuns (cfg : Config) (targetPid : Bool) (nginxPid : Option Text) :
    Mild env (kernelRuns cfg targetPid nginxPid : Py State ρ Unit) := by
  refine keeps_bind (confined_forRange (fun _ => ?_) fun _ _ he => he) fun _ => keeps_pure
  refine keeps_bind (keeps_when fun _ => confined_cont) fun _ => ?_
  refine keeps_bind (confined_clearRun henv) fun _ => ?_
  have hfinal := @endured_finishTraced ρ env True henv (kernelLeg targetPid) .kernel
  refine confined_tryFinally (Y := fun _ _ => False) ?_
    (hfinal.mono fun _ _ he => he.1) fun _ _ he => he.elim
  exact confined_onTimeout (mild_measureTraced henv) (confined_markFailed henv)
    (confined_markFailed henv)

theorem blamed_userbpfRuns (cfg : Config) (targetPid : Bool) :
    Confined env (Blamed derails) True (userbpfRuns cfg targetPid : Py State ρ Unit) := by
  refine keeps_bind (confined_forRange (fun i => ?_) fun e k he => ?_) fun _ => keeps_pure
  · refine keeps_bind (confined_setProc henv) fun _ => ?_
    refine keeps_bind (confined_clearRun henv) fun _ => ?_
    refine confined_tryFinally (Y := fun _ _ => False) ?_ ?_ fun _ _ he => he.elim
    · refine confined_onTimeout ?_ (confined_markFailed henv) (confined_markFailed henv)
      exact keeps_bind (mild_startUserbpf henv) fun _ => mild_measureTraced henv
    · refine keeps_bind (confined_ignoring (keeps_bind confined_holds fun _ => ?_)) fun _ => ?_
      · refine keeps_ite (fun _ => ?_) fun _ => keeps_pure
        exact keeps_bind (mild_act henv) fun _ => mild_act henv
      · refine keeps_bind ((endured_finishTraced henv).mono Endured.blamed) fun _ => ?_
        exact confined_cleanupProcesses henv
  · cases e <;> exact he

theorem blamed_runNative (cfg : Config) :
    Confined env (Blamed derails) returns (runNative cfg : Py State ρ Unit) := by
  refine confined_func (keeps_bind (confined_enterFunction henv) fun _ => ?_)
  refine keeps_bind (blamed_startNginx henv cfg) fun _ => ?_
  refine keeps_bind (confined_setProc henv) fun _ => ?_
  refine keeps_bind (keeps_when fun _ => confined_ret) fun _ => ?_
  exact confined_tryFinally (Y := fun _ _ => False)
    (confined_ignoring (mild_nativeRuns henv cfg)) (confined_stopNginx henv) fun _ _ he => he.elim

theorem blamed_runKernelSyscount (cfg : Config) (targetPid : Bool) :
    Confined env (Blamed derails) returns
      (runKernelSyscount cfg targetPid : Py State ρ Unit) := by
  refine confined_func (keeps_bind (confined_enterFunction henv) fun _ => ?_)
  refine keeps_bind (blamed_startNginx henv cfg) fun _ => ?_
  refine keeps_bind (confined_setProc henv) fun _ => ?_
  refine keeps_bind (keeps_when fun _ => confined_ret) fun _ => ?_
  refine keeps_bind (taken_checkFileExists henv takes_derails fun _ _ => rfl) fun _ => ?_
  refine keeps_bind (keeps_when fun _ => confined_ret) fun _ => ?_
  exact confined_tryFinally (Y := fun _ _ => False)
    (confined_ignoring (mild_kernelRuns henv cfg targetPid _)) (confined_stopNginx henv)
    fun _ _ he => he.elim

theorem blamed_runUserbpfSyscount (cfg : Config) (targetPid : Bool) :
    Confined env (Blamed derails) returns
      (runUserbpfSyscount cfg targetPid : Py State ρ Unit) := by
  refine confined_func (keeps_bind (confined_enterFunction henv) fun _ => ?_)
  refine keeps_bind (taken_checkFileExists henv takes_derails fun _ _ => rfl) fun _ => ?_
  refine keeps_bind (keeps_when fun _ => confined_ret) fun _ => ?_
  refine keeps_bind (taken_checkFileExists henv takes_derails fun _ _ => rfl) fun _ => ?_
  refine keeps_bind (keeps_when fun _ => confined_ret) fun _ => ?_
  refine keeps_bind (taken_checkFileExists henv takes_derails fun _ _ => rfl) fun _ => ?_
  refine keeps_bind (keeps_when fun _ => confined_ret) fun _ => ?_
  exact blamed_userbpfRuns henv cfg targetPid

theorem blamed_runLegs (cfg : Config) :
    Confined env (Blamed derails) returns (runLegs cfg : Py State ρ Unit) := by
  refine keeps_bind (blamed_runNative henv cfg) fun _ => ?_
  refine keeps_bind (blamed_runKernelSyscount henv cfg true) fun _ => ?_
  refine keeps_bind (blamed_runKernelSyscount henv cfg false) fun _ => ?_
  refine keeps_bind (blamed_runUserbpfSyscount henv cfg true) fun _ => ?_
  exact blamed_runUserbpfSyscount henv cfg false

theorem wp_mainBody (cfg : Config) :
    wp env (mainBody cfg) (fun _ k => missingResults cfg k.state = []) (mainExit derails)
      start := by
  have hwrite : Confined env (Blamed derails) False (act .writeResults : Py State Unit Unit) :=
    taken_act henv takes_derails fun _ => rfl
  have hreport : Confined env (Blamed derails) False (act .writeReport : Py State Unit Unit) :=
    taken_act henv takes_derails fun _ => rfl
  have hlooked : Looked [] start := ⟨rfl, by simp [start]⟩
  refine wp_bind (wp_mono (wp_checkEnvironment henv derails_of_main hlooked)
    (fun _ k _ => wp_bind ?_) fun _ _ hx => hx)
  refine wp_mono (blamed_runLegs henv cfg k trivial) (fun _ k _ => wp_bind ?_) mainExit_of_leaving
  refine wp_mono (hwrite k trivial) (fun _ k _ => wp_bind ?_) mainExit_of_leaving
  refine wp_mono (hreport k trivial) (fun _ k _ => wp_bind (wp_read (wp_when ?_ ?_)))
    mainExit_of_leaving
  · exact fun _ => wp_raise Nat.one_ne_zero
  · exact fun hnone => not_not.mp hnone

end Confined

/-- Every leg has a sample, but for those that `ALLOW_MISSING_USERBPF` exempts. -/
def Done (cfg : Config) (s : State) : Prop :=
  ∀ leg : Leg, ¬(cfg.allowMissingUserbpf = true ∧ leg.isUserbpf = true) → s.results leg ≠ []

/-- No leg is marked as skipped. -/
def Unskipped (k : PyMachine State) : Prop := ∀ leg, (k.state.runStats leg).skipped = false

theorem quiet_unskipped : Quiet Footprint.all Unskipped where
  tick := fun _ hk => hk
  answered := fun _ _ _ _ hk => hk
  assigned := fun _ _ _ hk => hk

theorem Unskipped.setStats {k : PyMachine State} (h : Unskipped k) {leg : Leg}
    {f : Stats → Stats} (hf : ∀ stats, (f stats).skipped = stats.skipped) :
    Unskipped (k.updated fun s => s.setStats leg f) := by
  intro leg'
  simp only [Machine.updated, State.setStats]
  split
  · rw [hf]
    exact h leg'
  · exact h leg'

theorem keepsRuns_unskipped {env : PyEnv} : KeepsRuns env Unskipped := by
  have hfailed (leg : Leg) (reason : Reason) :
      Maintains env Unskipped (markFailed leg reason : Py State Unit Unit) := by
    refine maintains_bind (maintains_update quiet_unskipped fun k hk => ?_) fun _ => ?_
    · exact hk.setStats fun _ => rfl
    · exact maintains_update quiet_unskipped fun k hk => hk.setStats fun _ => rfl
  have hrecord (leg : Leg) (v : ℚ) :
      Maintains env Unskipped (record leg v : Py State Unit Unit) := by
    refine maintains_bind (maintains_update quiet_unskipped fun k hk => hk) fun _ => ?_
    exact maintains_update quiet_unskipped fun k hk => hk.setStats fun _ => rfl
  refine ⟨quiet_unskipped, fun _ hk => hk, hfailed, hrecord .native, fun leg mode i require => ?_⟩
  refine maintains_bind keeps_vars fun v => maintains_when (maintains_bind ?_ fun summary => ?_)
  · refine maintains_bind
      (maintains_awaitIfStarted quiet_unskipped (fun _ => trivial) hfailed) fun _ => ?_
    refine maintains_bind (free_act.maintains quiet_unskipped) fun _ k hk => ?_
    exact wp_summarizeSyscountLog quiet_unskipped (fun _ _ => trivial) hk (fun _ _ hk => hk)
      fun _ _ hk => hk
  · cases v.reqPerSec with
    | none => exact maintains_pure
    | some v => exact maintains_ite (hrecord leg v) (hfailed leg _)

theorem done_of_missingResults {cfg : Config} {k : PyMachine State}
    (hnone : missingResults cfg k.state = []) (hskip : Unskipped k) : Done cfg k.state := by
  intro leg hexempt hempty
  have hleg : leg ∈ allLegs := by cases leg <;> simp [allLegs]
  have hkept := List.filter_eq_nil_iff.mp hnone leg hleg
  rw [hempty, hskip leg] at hkept
  simp only [List.isEmpty_nil, Bool.not_false, Bool.and_self, Bool.true_and,
    Bool.not_eq_true', Bool.not_eq_false, Bool.and_eq_true] at hkept
  exact hexempt (by simpa using hkept)

theorem quiet_missingResults (cfg : Config) :
    Quiet Footprint.all (fun k : PyMachine State => missingResults cfg k.state = []) where
  tick := fun _ hk => hk
  answered := fun _ _ _ _ hk => hk
  assigned := fun _ _ _ hk => hk

end Syscount

/-- What a tracer prints that either program takes for a trace. -/
def goodTrace : Text :=
  "OpenSSL path: libssl.so\nHANDSHAKE\nTracing syscalls\nSYSCALL COUNT\nread 12".toList

def everythingWorks : PyEnv where
  answer := fun _ => smoothReply goodTrace
  interrupt := fun _ => none

def sslOnce : SslNginx.Config := ⟨1, 0, ["baseline".toList, "bpftime".toList]⟩

def syscountOnce : Syscount.Config := ⟨1, false, false⟩

instance (derails : Call → Bool) (calls : List Call) : Decidable (Derailed derails calls) :=
  inferInstanceAs (Decidable (_ ∨ _))

/-- `nginx` is not installed. -/
def noNginx : PyEnv where
  answer := fun _ op =>
    match op with
    | .ask (.pathExists (.commonNginx _)) => false
    | .act (.run (.which .nginx)) => .ok ⟨1, [], []⟩
    | op => smoothReply goodTrace op
  interrupt := fun _ => none

/-- A signal arrives soon after the start. -/
def signalled : PyEnv where
  answer := fun _ => smoothReply goodTrace
  interrupt := fun n => if n = 5 then some (.systemExit 0) else none

/-- The processes of the preflight cannot be started, and the trace logs of bpftime
cannot be read. -/
def failing : PyEnv where
  answer := fun _ op =>
    match op with
    | .act (.popen .preflightTracer) => .error .other
    | .act (.stat (.traceStdout .userspace)) => .error .other
    | op => smoothReply goodTrace op
  interrupt := fun _ => none

end BpftimeBenchmark.Bench
