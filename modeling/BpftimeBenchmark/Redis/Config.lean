import BpftimeBenchmark.Lib.Dict
import BpftimeBenchmark.Lib.Lines

/-!
The configuration file of Redis, which every mode of the sweep rewrites in place.
-/

namespace BpftimeBenchmark.Redis.Config

open Text

/-- The two files `update_config` works on. -/
structure Files where
  redisConf : Text
  redisConfTmp : Option Text

/-- `os.rename(temp_config_path, config_path)`. -/
def rename (files : Files) : Files :=
  match files.redisConfTmp with
  | none => files
  | some temp => { redisConf := temp, redisConfTmp := none }

def isDirective (line : Text) : Bool := startsWith (strip line) "appendfsync ".toList

/-- The turn of the first loop that looks at this line. -/
def commentOut (line : Text) : Text :=
  if isDirective line then "# ".toList ++ line else line

def updateConfig (configMods : List Text) (files : Files) : Files :=
  let configContent := (readLines files.redisConf).map commentOut
  let temp := configContent.flatten ++ (configMods.map (· ++ ['\n'])).flatten
  rename { files with redisConfTmp := some temp }

/-- `CONFIGS["standard"]`, of each entry its `config_mods`. -/
def standard : Dict Text (List Text) where
  entries :=
    [("no-aof".toList, ["appendfsync no".toList]),
      ("everysec".toList, ["appendfsync everysec".toList]),
      ("alwayson".toList, ["appendfsync always".toList])]
  nodup := by decide +kernel

/-- The keys of `CONFIGS["custom"]`. -/
def custom : List Text :=
  ["iouring-batch-10".toList, "iouring-batch-100".toList, "iouring-batch-1000".toList,
    "delayed-fsync".toList, "fsync-fast-notify".toList]

/-- `config_name.split(":")[1]` of a name with a colon. -/
def afterColon (configName : Text) : Text :=
  ((configName.dropWhile (· ≠ ':')).drop 1).takeWhile (· ≠ ':')

/-- The modifications with which `start_redis` calls `update_config`. -/
def startRedis (configName : Text) : Except PyError (List Text) :=
  if startsWith configName "standard:".toList then standard.get (afterColon configName)
  else if configName ∈ custom then .ok ["appendfsync always".toList]
  else .error .keyError

/-- The names that `benchmark_all` starts Redis with, in its order. -/
def sweep : List Text := standard.keys.map ("standard:".toList ++ ·) ++ custom

/-- The files after `start_redis` has been called with these names. -/
def starts (configNames : List Text) (files : Files) : Except PyError Files :=
  configNames.foldlM (fun files name => do
    let configMods ← startRedis name
    return updateConfig configMods files) files

/-- A word, the value of a directive. -/
structure Word (m : Text) : Prop where
  nonempty : m ≠ []
  no_space : ∀ c ∈ m, isSpace c = false

def directive (m : Text) : Text := "appendfsync ".toList ++ m

/-- The line that is written for a directive. -/
def directiveLine (m : Text) : Text := directive m ++ ['\n']

/-- The files after one call for each mode. -/
def updates (ms : List Text) (files : Files) : Files :=
  ms.foldl (fun files m => updateConfig [directive m] files) files

theorem appendfsync_eq : "appendfsync ".toList = 'a' :: "ppendfsync ".toList := by
  decide +kernel

theorem isDirective_directiveLine {m : Text} (hm : Word m) :
    isDirective (directiveLine m) = true := by
  have hlast : ∀ c ∈ (directive m).getLast?, isSpace c = false := by
    intro c hc
    unfold directive at hc
    rw [List.getLast?_append_of_ne_nil _ hm.nonempty] at hc
    exact hm.no_space c (List.mem_of_mem_getLast? hc)
  have hfirst : ∀ c ∈ (directive m).head?, isSpace c = false := by
    intro c hc
    unfold directive at hc
    rw [appendfsync_eq] at hc
    obtain rfl : 'a' = c := Option.some.inj hc
    decide
  have hblank : ∀ c ∈ ['\n'], isSpace c = true := by
    intro c hc
    rw [List.mem_singleton.mp hc]
    decide
  rw [isDirective, directiveLine, strip_append_blank hfirst hlast hblank, startsWith_iff]
  exact List.prefix_append _ _

/-- A comment is no directive, whatever it comments out. -/
theorem isDirective_comment (line : Text) : isDirective ("# ".toList ++ line) = false := by
  obtain ⟨t, ht⟩ := strip_cons (c := '#') (by decide) (' ' :: line)
  have hstrip : strip ("# ".toList ++ line) = '#' :: t := ht
  rw [isDirective, hstrip, appendfsync_eq]
  rfl

theorem isDirective_commentOut (line : Text) : isDirective (commentOut line) = false := by
  unfold commentOut
  split
  · exact isDirective_comment line
  · rename_i hline
    simpa using hline

@[simp] theorem commentOut_commentOut (line : Text) :
    commentOut (commentOut line) = commentOut line := by
  conv => lhs; rw [commentOut, isDirective_commentOut]
  rfl

theorem fileLine_commentOut {line : Text} (h : FileLine line) : FileLine (commentOut line) := by
  unfold commentOut
  split
  · exact h.append (by decide) (by decide)
  · exact h

theorem fileLine_directiveLine {m : Text} (hm : Word m) : FileLine (directiveLine m) := by
  have hchars : ∀ c, isSpace c = true → c ∉ m := by
    intro c hc hmem
    rw [hm.no_space c hmem] at hc
    cases hc
  have hline : FileLine (m ++ ['\n']) := ⟨m, hchars _ (by decide), hchars _ (by decide), rfl⟩
  have happend := hline.append (s := "appendfsync ".toList) (by decide) (by decide)
  rwa [← List.append_assoc] at happend

/-- One call comments out what was in force and adds its own line. -/
theorem updateConfig_lines {ls : List Text} {m : Text} (files : Files)
    (h : files.redisConf = ls.flatten) (hlines : ∀ l ∈ ls, FileLine l) :
    (updateConfig [directive m] files).redisConf =
      (ls.map commentOut ++ [directiveLine m]).flatten := by
  simp [updateConfig, rename, h, readLines_flatten hlines, directiveLine]

/-- Any number of calls comment out what was in force once. -/
theorem updates_lines {ls : List Text} {ms : List Text} {m : Text} (files : Files)
    (h : files.redisConf = ls.flatten) (hlines : ∀ l ∈ ls, FileLine l)
    (hwords : ∀ w ∈ ms, Word w) :
    (updates (ms ++ [m]) files).redisConf =
      ((ls ++ ms.map directiveLine).map commentOut ++ [directiveLine m]).flatten := by
  induction ms using List.reverseRecOn generalizing m with
  | nil => simpa [updates] using updateConfig_lines files h hlines
  | append_singleton ms w ih =>
      have hms : ∀ v ∈ ms, Word v := fun v hv => hwords v (List.mem_append_left _ hv)
      have hw : Word w := hwords w (List.mem_append_right _ (List.mem_singleton_self w))
      have hbefore := ih (m := w) hms
      have hfile : ∀ l ∈ (ls ++ ms.map directiveLine).map commentOut ++ [directiveLine w],
          FileLine l := by
        intro l hl
        rcases List.mem_append.mp hl with hl | hl
        · obtain ⟨l', hl', rfl⟩ := List.mem_map.mp hl
          apply fileLine_commentOut
          rcases List.mem_append.mp hl' with hl' | hl'
          · exact hlines l' hl'
          · obtain ⟨v, hv, rfl⟩ := List.mem_map.mp hl'
            exact fileLine_directiveLine (hms v hv)
        · rw [List.mem_singleton.mp hl]
          exact fileLine_directiveLine hw
      have hstep : updates (ms ++ [w] ++ [m]) files =
          updateConfig [directive m] (updates (ms ++ [w]) files) := by
        simp [updates]
      rw [hstep, updateConfig_lines _ hbefore hfile]
      simp [Function.comp_def]

/-- What the file keeps of a line: a directive as one comment, any other line as it is. -/
def Kept (line kept : Text) : Prop :=
  if isDirective line then kept = "# ".toList ++ line else kept = line

theorem kept_commentOut (line : Text) : Kept line (commentOut line) := by
  unfold Kept commentOut
  split <;> rfl

/-- The lines of the file after any number of calls. -/
theorem readLines_updates {conf : Text} {ms : List Text} {m : Text} (tmp : Option Text)
    (hreturn : '\r' ∉ conf) (hend : conf.getLast? = some '\n')
    (hwords : ∀ w ∈ ms ++ [m], Word w) :
    readLines (updates (ms ++ [m]) ⟨conf, tmp⟩).redisConf =
      (readLines conf ++ ms.map directiveLine).map commentOut ++ [directiveLine m] := by
  obtain ⟨ls, -, hlines, rfl⟩ := exists_fileLines hreturn hend
  have hms : ∀ w ∈ ms, Word w := fun w hw => hwords w (List.mem_append_left _ hw)
  have hm : Word m := hwords m (List.mem_append_right _ (List.mem_singleton_self m))
  rw [updates_lines ⟨ls.flatten, tmp⟩ rfl hlines hms, readLines_flatten hlines,
    readLines_flatten]
  intro l hl
  rcases List.mem_append.mp hl with hl | hl
  · obtain ⟨l', hl', rfl⟩ := List.mem_map.mp hl
    apply fileLine_commentOut
    rcases List.mem_append.mp hl' with hl' | hl'
    · exact hlines l' hl'
    · obtain ⟨w, hw, rfl⟩ := List.mem_map.mp hl'
      exact fileLine_directiveLine (hms w hw)
  · rw [List.mem_singleton.mp hl]
    exact fileLine_directiveLine hm

theorem filter_isDirective (ls : List Text) {m : Text} (hm : Word m) :
    (ls.map commentOut ++ [directiveLine m]).filter isDirective = [directiveLine m] := by
  have hnone : (ls.map commentOut).filter isDirective = [] := by
    rw [List.filter_eq_nil_iff]
    intro l hl
    obtain ⟨l', -, rfl⟩ := List.mem_map.mp hl
    rw [isDirective_commentOut]
    exact Bool.false_ne_true
  rw [List.filter_append, hnone, List.nil_append, List.filter_singleton,
    isDirective_directiveLine hm]
  rfl

/-- After each call the last line is the only directive in force and the one of
that call; every directive before it is one comment, every other line is as it
was. -/
theorem one_directive_in_force {conf : Text} {ms : List Text} {m : Text} (tmp : Option Text)
    (hreturn : '\r' ∉ conf) (hend : conf.getLast? = some '\n')
    (hwords : ∀ w ∈ ms ++ [m], Word w) :
    ∃ body,
      readLines (updates (ms ++ [m]) ⟨conf, tmp⟩).redisConf = body ++ [directiveLine m] ∧
      (body ++ [directiveLine m]).filter isDirective = [directiveLine m] ∧
      List.Forall₂ Kept (readLines conf ++ ms.map directiveLine) body := by
  have hm : Word m := hwords m (List.mem_append_right _ (List.mem_singleton_self m))
  refine ⟨_, readLines_updates tmp hreturn hend hwords, filter_isDirective _ hm, ?_⟩
  rw [List.forall₂_map_right_iff]
  exact List.forall₂_same.mpr fun line _ => kept_commentOut line

theorem word_of_all {m : Text} (h : (!m.isEmpty && m.all fun c => !isSpace c) = true) :
    Word m := by
  rw [Bool.and_eq_true] at h
  exact ⟨by simpa using h.1, not_space_of_all h.2⟩

/-- Two calls on a file with an indented directive, a comment and another key. -/
theorem one_directive_in_force_twice :
    ∃ body,
      readLines (updates (["no".toList] ++ ["always".toList])
        ⟨" appendfsync everysec\n# appendfsync no\nport 1\n".toList, none⟩).redisConf =
          body ++ [directiveLine "always".toList] ∧
      (body ++ [directiveLine "always".toList]).filter isDirective =
        [directiveLine "always".toList] ∧
      List.Forall₂ Kept (readLines " appendfsync everysec\n# appendfsync no\nport 1\n".toList ++
        ["no".toList].map directiveLine) body := by
  refine one_directive_in_force none (by decide +kernel) (by decide +kernel) ?_
  intro w hw
  rcases List.mem_append.mp hw with hw | hw <;> rw [List.mem_singleton.mp hw] <;>
    exact word_of_all (by decide +kernel)

/-- Whether these are the modifications of one mode. -/
def isMode : List Text → Bool
  | [mod] =>
      let m := mod.drop "appendfsync ".toList.length
      mod = directive m && !m.isEmpty && m.all fun c => !isSpace c
  | _ => false

theorem startRedis_sweep {name : Text} (h : name ∈ sweep) :
    ∃ m, Word m ∧ startRedis name = .ok [directive m] := by
  have hall : sweep.all (fun name =>
      match startRedis name with
      | .ok configMods => isMode configMods
      | .error _ => false) = true := by decide +kernel
  have hname := List.all_eq_true.mp hall name h
  split at hname
  · rename_i configMods hstart
    unfold isMode at hname
    split at hname
    · rename_i mod
      simp only [Bool.and_eq_true, decide_eq_true_eq, and_assoc] at hname
      exact ⟨_, word_of_all (by rw [hname.2.1, hname.2.2]; rfl), by rw [hstart, ← hname.1]⟩
    · cases hname
  · cases hname

theorem starts_updates {names : List Text} (h : ∀ name ∈ names, name ∈ sweep) (files : Files) :
    ∃ ms, (∀ m ∈ ms, Word m) ∧ starts names files = .ok (updates ms files) := by
  induction names generalizing files with
  | nil => exact ⟨[], by simp, rfl⟩
  | cons name rest ih =>
      obtain ⟨m, hm, hstart⟩ := startRedis_sweep (h name List.mem_cons_self)
      obtain ⟨ms, hms, hrest⟩ := ih (fun n hn => h n (List.mem_cons_of_mem _ hn))
        (updateConfig [directive m] files)
      refine ⟨m :: ms, ?_, ?_⟩
      · intro w hw
        rcases List.mem_cons.mp hw with rfl | hw
        · exact hm
        · exact hms w hw
      · rw [starts, List.foldlM_cons, hstart]
        exact hrest

/-- Redis always starts with the mode under test, whatever has been run before. -/
theorem starts_mode {conf : Text} {names : List Text} {name : Text} (tmp : Option Text)
    (hreturn : '\r' ∉ conf) (hend : conf.getLast? = some '\n')
    (hnames : ∀ n ∈ names ++ [name], n ∈ sweep) :
    ∃ m files, startRedis name = .ok [directive m] ∧
      starts (names ++ [name]) ⟨conf, tmp⟩ = .ok files ∧
      (readLines files.redisConf).filter isDirective = [directiveLine m] := by
  obtain ⟨ms, hms, hstarts⟩ := starts_updates
    (fun n hn => hnames n (List.mem_append_left _ hn)) ⟨conf, tmp⟩
  obtain ⟨m, hm, hstart⟩ := startRedis_sweep
    (hnames name (List.mem_append_right _ (List.mem_singleton_self name)))
  have hlast : starts (names ++ [name]) ⟨conf, tmp⟩ =
      .ok (updates (ms ++ [m]) ⟨conf, tmp⟩) := by
    rw [starts] at hstarts ⊢
    rw [List.foldlM_append, hstarts]
    simp [hstart, updates, bind, Except.bind, pure, Except.pure]
  refine ⟨m, _, hstart, hlast, ?_⟩
  have hwords : ∀ w ∈ ms ++ [m], Word w := by
    intro w hw
    rcases List.mem_append.mp hw with hw | hw
    · exact hms w hw
    · rw [List.mem_singleton.mp hw]
      exact hm
  rw [readLines_updates tmp hreturn hend hwords, filter_isDirective _ hm]

end BpftimeBenchmark.Redis.Config
