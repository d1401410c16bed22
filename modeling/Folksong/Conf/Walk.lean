import Folksong.Conf.Attempts

/-!
# What the steps of a directive keep

`fs_conf_handle` is made of few operations: it pushes a frame, stores into the slot of the innermost
one, calls into the modules, changes the registry and pops. What each of them keeps is kept by a
directive, however it ends.
-/

namespace Folksong

variable {μ κ H : Type}

/-- Between directives `I` holds, and `J` while there is a frame. The operations keep them, but for
those on the registry. -/
structure Walk (I J : Conf μ κ H → Prop) : Prop where
  push : ∀ {c} m cmd, I c → J (c.stPush m cmd)
  pop : ∀ {c}, J c → I c.stPop
  drop : ∀ {c c'}, J c → c.dropBlock = some c' → I c'
  inside : ∀ {c}, I c → c.stMod ≠ [] → J c
  outside : ∀ {c}, J c → I c
  store : ∀ {c} p, J c → J (c.storeTop p)
  called : ∀ {c} heap log, J c → J { c with heap := heap, log := log }

/-- The blocks of the command `cmd` of the module `m` can be entered in the registry. -/
structure Registers [DecidableEq μ] (I J : Conf μ κ H → Prop) (m : μ) (cmd : FsCmd κ) : Prop where
  register : ∀ {c c' p}, cmd.child ≠ true → J c → c.register m p = some c' → J c'
  unregister : ∀ {c c' first}, I c → c.unregister m first = some c' → I c'

/-- The exit leaves a state that satisfies `I`. -/
def Exit.Keeps (I : Conf μ κ H → Prop) : Exit μ κ H → Prop
  | .error c | .pass _ c => I c
  | .undefined => True

lemma keeps_defined {α : Type} {x : Option α} {P : α → Prop} {I : Conf μ κ H → Prop}
    (h : ∀ a, x = some a → P a) : (defined x).Post P (Exit.Keeps I) := by
  cases x with
  | none => trivial
  | some a => exact h a rfl

variable {env : Env μ κ H} {c c' : Conf μ κ H} {I J : Conf μ κ H → Prop}

/-- What does not depend on the registry. -/
lemma registers_of_blind [DecidableEq μ]
    (hI : ∀ {c} used ctxs, I c → I { c with used := used, ctxs := ctxs })
    (hJ : ∀ {c} used ctxs, J c → J { c with used := used, ctxs := ctxs }) (m : μ)
    (cmd : FsCmd κ) : Registers I J m cmd where
  register _ h hreg := by
    rw [Conf.register] at hreg
    split at hreg
    · cases hreg
      exact hJ _ _ h
    · cases hreg
  unregister h hun := by
    obtain ⟨ctxs, -, rfl⟩ := Option.map_eq_some_iff.mp hun
    exact hI _ _ h

namespace Walk

/-! ### The calls of the modules -/

lemma emit (hw : Walk I J) (h : J c) (e : Event μ κ) : J (c.emit e) :=
  hw.called c.heap (c.log ++ [e]) h

lemma popEmit (hw : Walk I J) (h : J c) (e : Event μ κ) : I (c.stPop.emit e) :=
  hw.pop (hw.emit h e)

lemma runCall (hw : Walk I J) (h : J c) (m : μ) (cmd : FsCmd κ) (p : Ptr) :
    (defined (c.runCall env m cmd p)).Post (fun r => J r.2) (Exit.Keeps I) := by
  refine keeps_defined fun r hr => ?_
  rw [(runCall_eq hr).2]
  exact hw.emit (hw.called r.2.heap c.log h) _

lemma runInitMod (hw : Walk I J) (h : J c) (m : μ) (cmd : FsCmd κ) :
    (defined (c.runInitMod env m cmd)).Post (fun r => J r.2) (Exit.Keeps I) := by
  refine keeps_defined fun r hr => ?_
  rw [Conf.runInitMod] at hr
  split at hr
  · cases hr
    exact h
  · obtain ⟨⟨r', q, h'⟩, -, rfl⟩ := Option.map_eq_some_iff.mp hr
    cases q with
    | none => exact hw.emit (hw.called h' c.log h) _
    | some q => exact hw.emit (hw.called h' _ (hw.store q h)) _

lemma runCompleted (hw : Walk I J) (h : J c) (m : μ) (p : Ptr) :
    (defined (c.runCompleted env m p)).Post (fun r => J r.2) (Exit.Keeps I) := by
  refine keeps_defined fun r hr => ?_
  obtain ⟨heap, log, hc⟩ := runCompleted_changes hr
  rw [hc]
  exact hw.called _ _ h

lemma dropBlock (hw : Walk I J) (h : J c) :
    (defined c.dropBlock).Post I (Exit.Keeps I) :=
  keeps_defined fun _ hdrop => hw.drop h hdrop

/-! ### The parts of a directive -/

lemma tryParam (hw : Walk I J) (h : I c) (m : μ) (cmd : FsCmd κ) (first : Bool) :
    (tryParam env c m cmd first).Post I (Exit.Keeps I) := by
  rw [Folksong.tryParam]
  split_ifs with hempty
  · exact h
  · have hinside := hw.inside h (by simpa using hempty)
    refine (hw.runCall hinside m cmd _).bind ?_
    rintro ⟨r, c₁⟩ h₁
    cases r <;> exact hw.outside h₁

lemma leaveBlock (hw : Walk I J) (h : J c) (m : μ) (cmd : FsCmd κ) (st : Status) :
    (leaveBlock env c m cmd st).Post I (Exit.Keeps I) := by
  rw [Folksong.leaveBlock]
  split_ifs with hst
  · refine (hw.runCompleted h m _).bind ?_
    rintro ⟨r, c₁⟩ h₁
    cases r with
    | ok => exact hw.popEmit h₁ _
    | pass => exact hw.outside h₁
    | error => exact hw.outside h₁
  · exact hw.outside (hw.emit h _)

lemma closeBlock (hw : Walk I J) (h : I c) : (closeBlock env c).Post I (Exit.Keeps I) := by
  rw [Folksong.closeBlock]
  split
  next => exact h
  next frame frames hframes =>
    have hinside := hw.inside h (by rw [hframes]; exact List.cons_ne_nil _ _)
    split_ifs with hchild
    · exact hw.popEmit hinside _
    · refine (hw.runCompleted hinside _ _).bind ?_
      rintro ⟨r, c₁⟩ h₁
      cases r with
      | ok => exact hw.popEmit h₁ _
      | pass => exact hw.outside h₁
      | error => exact hw.outside h₁

variable [DecidableEq μ] {m : μ} {cmd : FsCmd κ}

lemma enterBlock (hw : Walk I J) (hr : Registers I J m cmd) (h : J c) (first : Bool) :
    (enterBlock env c m cmd first).Post (fun r => J r.2) (Exit.Keeps I) := by
  rw [Folksong.enterBlock]
  split_ifs with hchild
  · exact hw.store _ h
  · refine (hw.runInitMod h m cmd).bind ?_
    rintro ⟨r, c₁⟩ h₁
    cases r with
    | error => exact hw.outside h₁
    | pass => exact (hw.dropBlock h₁).bind fun _ h₂ => h₂
    | ok => exact (keeps_defined fun _ hreg => hr.register hchild h₁ hreg).bind fun _ h₂ => h₂

lemma callBlock (hw : Walk I J) (hr : Registers I J m cmd) (h : J c) (first : Bool) :
    (callBlock env c m cmd first).Post J (Exit.Keeps I) := by
  rw [Folksong.callBlock]
  refine (hw.runCall h m cmd _).bind ?_
  rintro ⟨r, c₁⟩ h₁
  cases r with
  | ok => exact h₁
  | error => exact hw.outside h₁
  | pass =>
    refine (hw.dropBlock h₁).bind fun _ h₂ => ?_
    exact (keeps_defined fun _ hun => hr.unregister h₂ hun).bind fun _ h₃ => h₃

/-- A command that is tried. -/
lemma tryCmd (hw : Walk I J) (hr : Registers I J m cmd) (h : I c) (st : Status) (first : Bool) :
    (tryCmd env c m cmd st first).Post I (Exit.Keeps I) := by
  rw [Folksong.tryCmd]
  split_ifs with hparam
  · exact hw.tryParam h m cmd first
  · exact (hw.enterBlock hr (hw.push m cmd h) first).bind fun _ h₁ =>
      (hw.callBlock hr h₁ _).bind fun _ h₂ => hw.leaveBlock h₂ m cmd st

/-- The loops over the commands. -/
lemma tryAll (hw : Walk I J) {cmds : List (μ × FsCmd κ)}
    (hcmds : ∀ p ∈ cmds, Registers I J p.1 p.2) {name : FsStr} {st : Status} {first : Bool}
    (h : I c) : (tryAll env name st cmds first c).Post I (Exit.Keeps I) := by
  induction cmds generalizing first c with
  | nil => exact h
  | cons p cmds ih =>
    obtain ⟨m, cmd⟩ := p
    have hrest : ∀ p ∈ cmds, Registers I J p.1 p.2 := fun p hp =>
      hcmds p (List.mem_cons_of_mem _ hp)
    have hhead : (Folksong.tryCmd env c m cmd st first).Post I (Exit.Keeps I) :=
      hw.tryCmd (hcmds _ List.mem_cons_self) h st first
    rw [tryAll_cons]
    split_ifs with hmatch
    · cases hr : Folksong.tryCmd env c m cmd st first with
      | ok c₁ =>
        rw [hr] at hhead
        exact hhead
      | error e =>
        rw [hr] at hhead
        cases e with
        | pass first₁ c₁ => exact ih hrest hhead
        | error c₁ => exact hhead
        | undefined => trivial
    · exact ih hrest h

/-- A directive keeps `I`, however it ends. -/
lemma handle (hw : Walk I J) (hcmds : ∀ p ∈ env.candidates, Registers I J p.1 p.2) (h : I c)
    (st : Status) : (fsConfHandle env c st).Post I (Exit.Keeps I) := by
  rw [fsConfHandle]
  split_ifs with hend
  · exact hw.closeBlock h
  · cases c.tokens.nth 0 with
    | none => trivial
    | some name => exact hw.tryAll hcmds h

end Walk

end Folksong
