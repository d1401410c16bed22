import Folksong.Mod.Table

/-!
# The verdict on a timer block

A timer is set up by callbacks that know nothing of each other. `timeout` and `repeat` look at
their own flag and their own words, and the completion at the closing brace looks at the three
flags. `Timer.takes` is what a directive does to the timer, and the verdict on a block is that of
taking its directives one after the other.
-/

namespace Folksong

/-! ### What a block says -/

/-- The commands of a timer block. -/
inductive TimerWord where
  | timeout | rep | exec
deriving DecidableEq, Repr

def TimerWord.cmd : TimerWord → FsCmd Callback
  | .timeout => fsParamCmd "timeout" .timerTimeout
  | .rep => fsParamCmd "repeat" .timerRepeat
  | .exec => fsParamCmd "exec" .timerExec

lemma TimerWord.isParam_cmd (w : TimerWord) : w.cmd.isParam = true := by cases w <;> rfl

/-- A directive of a timer block as the scanner delivers it: the word of the command and the words
behind it, of which `exec` has at least one. -/
structure TimerDirective where
  word : TimerWord
  name : FsStr
  args : List FsStr
  tokens : FsArr FsStr
  contents : tokens.contents = (name :: args).map some
  isToken : name.IsToken
  cstr : name.cstr = word.cmd.token.text
  exec : word = .exec → args ≠ []

namespace TimerDirective

def taking (d : TimerDirective) : Taking := ⟨.ok, d.tokens⟩

lemma nth_zero (d : TimerDirective) : d.tokens.nth 0 = some d.name := by
  apply FsArr.nth_of_contents
  rw [d.contents]
  rfl

/-- The time of the only word behind the name. -/
def time (d : TimerDirective) : Option Nat :=
  match d.args with
  | [value] => fsModTimerParseTime value.cstr
  | _ => none

end TimerDirective

/-- `timeout` and `repeat` occur at most once, with one word that is a time, and at least one of
them does; `exec` occurs. -/
structure TimerAccepts (ds : List TimerDirective) : Prop where
  once : ∀ w ≠ TimerWord.exec, ds.countP (·.word = w) ≤ 1
  time : ∀ d ∈ ds, d.word ≠ .exec → d.time.isSome
  timed : ∃ d ∈ ds, d.word ≠ .exec
  exec : ∃ d ∈ ds, d.word = .exec

/-- The directives up to somewhere inside a block: `timeout` and `repeat` occur at most once, with
one word that is a time. -/
structure TimerTakes (ds : List TimerDirective) : Prop where
  once : ∀ w ≠ TimerWord.exec, ds.countP (·.word = w) ≤ 1
  time : ∀ d ∈ ds, d.word ≠ .exec → d.time.isSome

/-- The vector of each `exec` that is reached has room for its `NULL`. -/
def ExecsFit (lib : Lib) (ds : List TimerDirective) : Prop :=
  ∀ pre d post, ds = pre ++ d :: post → TimerTakes pre → d.word = .exec →
    (execArgs d.tokens).Fits lib

/-- The time that is given with `w`, zero if there is none. -/
def Gives (ds : List TimerDirective) (w : TimerWord) (n : Nat) : Prop :=
  (∃ d ∈ ds, d.word = w ∧ d.time = some n) ∨ (∀ d ∈ ds, d.word ≠ w) ∧ n = 0

/-! ### The timer -/

namespace Timer

def flag (t : Timer) : TimerWord → Bool
  | .timeout => t.timeoutFlag
  | .rep => t.repeatFlag
  | .exec => t.cbFlag

def value (t : Timer) : TimerWord → Nat
  | .timeout => t.timeout
  | .rep => t.rep
  | .exec => 0

/-- What a directive makes of the timer; `none` if it is rejected. -/
def takes (t : Timer) (d : TimerDirective) : Option Timer :=
  match d.word with
  | .timeout =>
    if t.timeoutFlag then none
    else d.time.map fun n => { t with timeout := n, timeoutFlag := true }
  | .rep =>
    if t.repeatFlag then none else d.time.map fun n => { t with rep := n, repeatFlag := true }
  | .exec => some { t with procOptions := some (execOptions d.tokens), cbFlag := true }

variable {t t' : Timer} {d : TimerDirective} {ds : List TimerDirective} {w : TimerWord}

/-- A time is taken once. -/
lemma exists_takes_iff : (∃ t', t.takes d = some t') ↔
    (d.word ≠ .exec → t.flag d.word = false ∧ d.time.isSome) := by
  rw [takes]
  cases d.word with
  | timeout =>
    cases hflag : t.timeoutFlag <;> simp [flag, hflag, Option.isSome_iff_exists]
  | rep =>
    cases hflag : t.repeatFlag <;> simp [flag, hflag, Option.isSome_iff_exists]
  | exec => simp

lemma takes_flag (h : t.takes d = some t') (w : TimerWord) :
    t'.flag w = (t.flag w || d.word = w) := by
  rw [takes] at h
  cases hword : d.word with
  | timeout =>
    simp only [hword, Option.ite_none_left_eq_some, Option.map_eq_some_iff] at h
    obtain ⟨-, n, -, rfl⟩ := h
    cases w <;> simp [flag]
  | rep =>
    simp only [hword, Option.ite_none_left_eq_some, Option.map_eq_some_iff] at h
    obtain ⟨-, n, -, rfl⟩ := h
    cases w <;> simp [flag]
  | exec =>
    simp only [hword, Option.some.injEq] at h
    subst h
    cases w <;> simp [flag]

lemma takes_value (h : t.takes d = some t') (hw : w ≠ .exec) :
    (d.word = w → d.time = some (t'.value w)) ∧ (d.word ≠ w → t'.value w = t.value w) := by
  rw [takes] at h
  cases hword : d.word with
  | timeout =>
    simp only [hword, Option.ite_none_left_eq_some, Option.map_eq_some_iff] at h
    obtain ⟨-, n, hn, rfl⟩ := h
    cases w <;> simp [value, hn]
  | rep =>
    simp only [hword, Option.ite_none_left_eq_some, Option.map_eq_some_iff] at h
    obtain ⟨-, n, hn, rfl⟩ := h
    cases w <;> simp [value, hn]
  | exec =>
    simp only [hword, Option.some.injEq] at h
    subst h
    cases w <;> simp_all [value]

/-- A directive that is taken sets the flag that it counts for. -/
lemma count_takes (h : t.takes d = some t') (ds : List TimerDirective) (hw : w ≠ .exec) :
    (d :: ds).countP (·.word = w) + (t.flag w).toNat
      = ds.countP (·.word = w) + (t'.flag w).toNat := by
  rw [List.countP_cons, takes_flag h]
  by_cases hd : d.word = w
  · subst hd
    have hflag := (exists_takes_iff.mp ⟨t', h⟩ hw).1
    simp [hflag]
  · simp [hd]

lemma foldlM_takes_cons : (d :: ds).foldlM takes t = some t' ↔
    ∃ t₁, t.takes d = some t₁ ∧ ds.foldlM takes t₁ = some t' := by
  rw [List.foldlM_cons]
  exact Option.bind_eq_some_iff

/-- The vector of each `exec` that is reached has room. -/
def Fits (lib : Lib) (t : Timer) (ds : List TimerDirective) : Prop :=
  ∀ pre d post, ds = pre ++ d :: post → (∃ t', pre.foldlM takes t = some t') → d.word = .exec →
    (execArgs d.tokens).Fits lib

lemma fits_nil {lib : Lib} (t : Timer) : t.Fits lib [] := by
  intro pre d post heq
  simp at heq

lemma fits_cons {lib : Lib} : t.Fits lib (d :: ds) ↔
    (d.word = .exec → (execArgs d.tokens).Fits lib) ∧
      ∀ t', t.takes d = some t' → t'.Fits lib ds := by
  constructor
  · intro h
    refine ⟨h [] d ds rfl ⟨t, rfl⟩, ?_⟩
    rintro t₁ htake pre d' post rfl ⟨t', hpre⟩
    exact h (d :: pre) d' post rfl ⟨t', foldlM_takes_cons.mpr ⟨t₁, htake, hpre⟩⟩
  · rintro ⟨hd, hds⟩ pre d' post heq ⟨t', hpre⟩
    cases pre with
    | nil =>
      obtain ⟨rfl, -⟩ := List.cons.inj heq
      exact hd
    | cons x pre =>
      rw [List.cons_append, List.cons.injEq] at heq
      obtain ⟨rfl, rfl⟩ := heq
      obtain ⟨t₁, htake, hpre⟩ := foldlM_takes_cons.mp hpre
      exact hds t₁ htake pre d' post rfl ⟨t', hpre⟩

/-- All directives of a block are taken exactly when they are times that come once. -/
lemma exists_foldlM_iff : (∃ t', ds.foldlM takes t = some t') ↔
    (∀ w ≠ TimerWord.exec, ds.countP (·.word = w) + (t.flag w).toNat ≤ 1) ∧
      ∀ d ∈ ds, d.word ≠ .exec → d.time.isSome := by
  induction ds generalizing t with
  | nil =>
    refine iff_of_true ⟨t, rfl⟩ ⟨fun w _ => ?_, by simp⟩
    simpa using Bool.toNat_le (t.flag w)
  | cons d ds ih =>
    rw [List.forall_mem_cons]
    constructor
    · rintro ⟨t', h⟩
      obtain ⟨t₁, htake, hrest⟩ := foldlM_takes_cons.mp h
      obtain ⟨hcount, htime⟩ := ih.mp ⟨t', hrest⟩
      refine ⟨fun w hw => ?_, fun hd => (exists_takes_iff.mp ⟨t₁, htake⟩ hd).2, htime⟩
      rw [count_takes htake ds hw]
      exact hcount w hw
    · rintro ⟨hcount, hd, htime⟩
      have htakes : ∃ t₁, t.takes d = some t₁ := by
        refine exists_takes_iff.mpr fun hne => ⟨?_, hd hne⟩
        have hle := hcount _ hne
        rw [List.countP_cons] at hle
        cases hflag : t.flag d.word with
        | false => rfl
        | true => simp [hflag] at hle
      obtain ⟨t₁, htake⟩ := htakes
      obtain ⟨t', hrest⟩ := ih.mpr ⟨fun w hw => count_takes htake ds hw ▸ hcount w hw, htime⟩
      exact ⟨t', foldlM_takes_cons.mpr ⟨t₁, htake, hrest⟩⟩

/-- A flag tells whether its word occurs. -/
lemma foldlM_flag (h : ds.foldlM takes t = some t') (w : TimerWord) :
    t'.flag w ↔ t.flag w ∨ ∃ d ∈ ds, d.word = w := by
  induction ds generalizing t with
  | nil =>
    obtain rfl := Option.some.inj h
    simp
  | cons d ds ih =>
    obtain ⟨t₁, htake, hrest⟩ := foldlM_takes_cons.mp h
    rw [ih hrest, takes_flag htake]
    simp [or_assoc]

/-- A time is kept from the only directive that gives it. -/
lemma foldlM_value (h : ds.foldlM takes t = some t') (hw : w ≠ .exec) :
    (∀ d ∈ ds, d.word = w → d.time = some (t'.value w)) ∧
      ((∀ d ∈ ds, d.word ≠ w) → t'.value w = t.value w) := by
  induction ds generalizing t with
  | nil =>
    obtain rfl := Option.some.inj h
    exact ⟨by simp, fun _ => rfl⟩
  | cons d ds ih =>
    obtain ⟨t₁, htake, hrest⟩ := foldlM_takes_cons.mp h
    obtain ⟨hsame, hother⟩ := takes_value htake hw
    obtain ⟨hgiven, hkept⟩ := ih hrest
    rw [List.forall_mem_cons, List.forall_mem_cons]
    refine ⟨⟨fun hd => ?_, hgiven⟩, fun hno => (hkept hno.2).trans (hother hno.1)⟩
    -- no directive behind `d` gives the same time again
    have hle := (exists_foldlM_iff.mp ⟨t', hrest⟩).1 w hw
    rw [takes_flag htake, hd] at hle
    have hno : ∀ d' ∈ ds, d'.word ≠ w := by simpa using hle
    rw [hkept hno]
    exact hsame hd

/-- What the completion asks for. -/
def completes (t : Timer) : Bool := (t.repeatFlag || t.timeoutFlag) && t.cbFlag

lemma completes_iff {t : Timer} : t.completes ↔ (∃ w ≠ .exec, t.flag w) ∧ t.flag .exec := by
  rw [completes, Bool.and_eq_true, Bool.or_eq_true]
  refine and_congr_left fun _ => ⟨?_, ?_⟩
  · rintro (hflag | hflag)
    · exact ⟨.rep, by simp, hflag⟩
    · exact ⟨.timeout, by simp, hflag⟩
  · rintro ⟨w, hw, hflag⟩
    cases w with
    | timeout => exact .inr hflag
    | rep => exact .inl hflag
    | exec => exact absurd rfl hw

lemma timerTakes_iff : TimerTakes ds ↔ ∃ t', ds.foldlM takes fsModTimerInit = some t' := by
  have hflag : ∀ w, fsModTimerInit.flag w = false := fun w => by cases w <;> rfl
  simp only [exists_foldlM_iff, hflag, Bool.toNat_false, Nat.add_zero]
  exact ⟨fun h => ⟨h.once, h.time⟩, fun h => ⟨h.1, h.2⟩⟩

lemma execsFit_iff {lib : Lib} : ExecsFit lib ds ↔ fsModTimerInit.Fits lib ds := by
  simp only [ExecsFit, Fits, timerTakes_iff]

/-- The verdict on the directives of a block. -/
lemma timerAccepts_iff :
    TimerAccepts ds ↔ ∃ t', ds.foldlM takes fsModTimerInit = some t' ∧ t'.completes := by
  have hflag : ∀ w, fsModTimerInit.flag w = false := fun w => by cases w <;> rfl
  have hfold := @exists_foldlM_iff fsModTimerInit ds
  simp only [hflag, Bool.toNat_false, Nat.add_zero] at hfold
  constructor
  · rintro ⟨honce, htime, ⟨d, hd, hne⟩, hexec⟩
    obtain ⟨t', h⟩ := hfold.mpr ⟨honce, htime⟩
    refine ⟨t', h, completes_iff.mpr ⟨⟨d.word, hne, ?_⟩, ?_⟩⟩
    · exact (foldlM_flag h _).mpr (.inr ⟨d, hd, rfl⟩)
    · exact (foldlM_flag h _).mpr (.inr hexec)
  · rintro ⟨t', h, hcompletes⟩
    obtain ⟨⟨w, hw, hset⟩, hexec⟩ := completes_iff.mp hcompletes
    obtain ⟨honce, htime⟩ := hfold.mp ⟨t', h⟩
    rw [foldlM_flag h, hflag] at hset hexec
    obtain ⟨d, hd, rfl⟩ := hset.resolve_left nofun
    exact ⟨honce, htime, ⟨d, hd, hw⟩, hexec.resolve_left nofun⟩

/-- Each time that the timer has is the one that is given. -/
lemma gives_iff (h : ds.foldlM takes fsModTimerInit = some t') (hw : w ≠ .exec) (n : Nat) :
    n = t'.value w ↔ Gives ds w n := by
  obtain ⟨hgiven, hkept⟩ := foldlM_value h hw
  have hinit : fsModTimerInit.value w = 0 := by cases w <;> rfl
  constructor
  · rintro rfl
    by_cases hno : ∀ d ∈ ds, d.word ≠ w
    · exact .inr ⟨hno, (hkept hno).trans hinit⟩
    · push Not at hno
      obtain ⟨d, hd, hword⟩ := hno
      exact .inl ⟨d, hd, hword, hgiven d hd hword⟩
  · rintro (⟨d, hd, hword, htime⟩ | ⟨hno, rfl⟩)
    · rw [hgiven d hd hword, Option.some.injEq] at htime
      exact htime.symm
    · exact ((hkept hno).trans hinit).symm

end Timer

end Folksong
