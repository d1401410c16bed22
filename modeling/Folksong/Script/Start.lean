import Folksong.Script.Text

/-!
# What an accepted script starts

A script that is accepted leaves one object for each block of its own, in the order of their opening
braces, and each of them is complete. So `fs_gmod_inited`, which tests nothing, finds all it reads,
and makes the calls of each object once.
-/

namespace Folksong

/-! ### What every step of a script keeps -/

/-- What every directive keeps is kept by a script. -/
lemma Script.eval_keeps {lib : Lib} {unset : Heap → Callback → Bool} {I : Heap → Prop}
    (happly : ∀ h k args p h', I h → h.apply lib unset k args p = .ok h' → I h')
    (hopened : ∀ h k r, k.child = false → I h → h.opened lib k = .ok r → I r.2)
    (hcomplete : ∀ h p h', I h → h.complete lib p = .ok h' → I h') (s : Script) :
    ∀ {p : Ptr} {h h' : Heap}, I h → s.eval lib unset p h = .ok h' → I h' := by
  induction s with
  | nil =>
    intro p h h' hI heval
    cases heval
    exact hI
  | param k l rest ih =>
    intro p h h' hI heval
    obtain ⟨h₁, hok, heval⟩ := Except.bind_eq_ok_iff.mp heval
    exact ih (happly _ _ _ _ _ hI hok) heval
  | block k l body left rest ihbody ihrest =>
    intro p h h' hI heval
    rw [Script.eval] at heval
    split_ifs at heval with hchild
    · obtain ⟨h₂, hblock, heval⟩ := Except.bind_eq_ok_iff.mp heval
      obtain ⟨h₁, hok, hbody⟩ := Except.bind_eq_ok_iff.mp hblock
      exact ihrest (ihbody (happly _ _ _ _ _ hI hok) hbody) heval
    · obtain ⟨h₃, hblock, heval⟩ := Except.bind_eq_ok_iff.mp heval
      obtain ⟨r, hopen, hclosed⟩ := Except.bind_eq_ok_iff.mp hblock
      obtain ⟨h₂, hbody, hclose⟩ := Except.bind_eq_ok_iff.mp hclosed
      have hI' := ihbody (hopened _ _ _ (by simpa using hchild) hI hopen) hbody
      exact ihrest (hcomplete _ _ _ hI' hclose) heval

/-! ### Objects -/

/-- All that `fs_gmod_inited` and the callbacks of the event loop read of an object is there. -/
def Obj.complete : Obj → Bool
  | .version welcome => welcome.isSome
  | .timer t => t.completes
  | .http block => block.host.isSome
  | .listener l =>
    match l.topic with
    | .arr topics => topics.toList.all (·.procFlag)
    | _ => false

section

variable {lib : Lib} {unset : Heap → Callback → Bool} {h h₁ h' : Heap} {k : Callback}
  {args : List FsStr} {p q : Ptr} {o o' : Obj} {ms ms' : List ModId}

/-- A directive in a version block leaves it with a text. -/
lemma meaning_version {null : Callback → Bool} {calls calls' : List LibCall}
    {welcome : Option (List UInt8)}
    (h : k.meaning lib null calls args o = .ok (.version welcome, calls')) : welcome.isSome := by
  unfold Callback.meaning at h
  split at h
  case h_2 | h_3 =>
    split_ifs at h
    split at h <;> cases h
  all_goals first
    | (cases h; done)
    | (cases h; rfl)
    | (obtain ⟨a, -, ha⟩ := Except.map_eq_ok_iff.mp h; cases ha)

/-- The text of a version block is there, and there is one block at most. -/
structure Heap.Greets (h : Heap) : Prop where
  welcome : ∀ p welcome, h.get p = some (.version welcome) → welcome.isSome
  single : (h.contexts .version).length ≤ 1

namespace Heap

lemma apply_eq (happly : h.apply lib unset k args p = .ok h') :
    ∃ o o' calls, h.get p = some o ∧ k.meaning lib (unset h) h.calls args o = .ok (o', calls) ∧
      h' = { h with calls := calls }.set p o' := by
  rw [apply] at happly
  split at happly
  next => cases happly
  next o ho =>
    obtain ⟨⟨o', calls⟩, hmeaning, rfl⟩ := Except.map_eq_ok_iff.mp happly
    exact ⟨o, o', calls, ho, hmeaning, rfl⟩

lemma opened_eq {r : Ptr × Heap} (hopened : h.opened lib k = .ok r) :
    r = h.alloc (k.fresh lib) ∧ (k = .versionInit → h.contexts .version = []) := by
  rw [opened] at hopened
  split_ifs at hopened with hversion
  cases hopened
  refine ⟨rfl, fun hk => ?_⟩
  by_contra hne
  exact hversion ⟨hk, any_owner_iff.mpr hne⟩

lemma complete_eq (hcomplete : h.complete lib p = .ok h') :
    ∃ o calls, h.get p = some o ∧ lib.completion h.calls o = .ok calls ∧
      h' = { h with calls := calls } := by
  rw [complete] at hcomplete
  split at hcomplete
  next => cases hcomplete
  next o ho =>
    obtain ⟨calls, hcompletion, rfl⟩ := Except.map_eq_ok_iff.mp hcomplete
    exact ⟨o, calls, ho, hcompletion, rfl⟩

lemma Greets.apply (hg : h.Greets) (happly : h.apply lib unset k args p = .ok h') :
    h'.Greets := by
  have hsingle := hg.single
  rw [← contexts_apply happly] at hsingle
  obtain ⟨o, o', calls, ho, hmeaning, rfl⟩ := apply_eq happly
  refine ⟨fun q welcome hq => ?_, hsingle⟩
  by_cases hqp : q = p
  · subst hqp
    rw [get_set_self (h := { h with calls := calls }) ho] at hq
    rw [Option.some.inj hq] at hmeaning
    exact meaning_version hmeaning
  · rw [get_set_ne _ hqp] at hq
    exact hg.welcome q welcome hq

lemma Greets.opened (hg : h.Greets) {r : Ptr × Heap} (hchild : k.child = false)
    (hopened : h.opened lib k = .ok r) : r.2.Greets := by
  obtain ⟨rfl, hversion⟩ := opened_eq hopened
  refine ⟨fun q welcome hq => ?_, ?_⟩
  · by_cases hnew : q = (h.alloc (k.fresh lib)).1
    · subst hnew
      rw [get_alloc_self] at hq
      have hfresh := Option.some.inj hq
      cases k <;> cases hfresh <;> rfl
    · rw [get_alloc_ne h _ hnew] at hq
      exact hg.welcome q welcome hq
  · rw [contexts_alloc]
    split_ifs with howner
    · rw [Callback.owner_fresh hchild] at howner
      have hk : k = .versionInit := by
        cases k <;> first | rfl | (cases howner; done) | cases hchild
      rw [hversion hk]
      exact Nat.le_refl 1
    · rw [List.append_nil]
      exact hg.single

lemma Greets.of_objs (hg : h.Greets) (hobjs : h'.objs = h.objs) : h'.Greets := by
  refine ⟨fun p welcome hp => hg.welcome p welcome ?_, ?_⟩
  · cases p with
    | obj n =>
      rw [get, hobjs] at hp
      exact hp
    | null | loop | wild => cases hp
  · rw [contexts_congr hobjs]
    exact hg.single

end Heap

lemma Script.eval_greets {s : Script} (hg : h.Greets) (heval : s.eval lib unset p h = .ok h') :
    h'.Greets := by
  refine s.eval_keeps (fun _ _ _ _ _ hg happly => hg.apply happly)
    (fun _ _ _ hchild hg hopened => hg.opened hchild hopened) (fun h p h' hg hcomplete => ?_) hg
    heval
  obtain ⟨o, calls, -, -, rfl⟩ := Heap.complete_eq hcomplete
  exact hg.of_objs rfl

/-- An object whose block has been closed is complete. -/
lemma complete_of_completion {calls calls' : List LibCall}
    (hwelcome : ∀ welcome, o = .version welcome → welcome.isSome)
    (h : lib.completion calls o = .ok calls') : o.complete = true := by
  cases o with
  | version welcome => exact hwelcome welcome rfl
  | timer t =>
    rw [Lib.completion] at h
    split_ifs at h with hcompletes
    exact hcompletes
  | http block =>
    rw [Lib.completion] at h
    split at h
    next => cases h
    next host hhost =>
      rw [Obj.complete, hhost]
      rfl
  | listener l =>
    rw [Lib.completion] at h
    rw [Obj.complete]
    split at h
    next => cases h
    next => cases h
    next topics htopics =>
      split_ifs at h with hany
      rw [htopics]
      simpa [List.all_eq_not_any_not] using hany

/-! ### The objects of a script -/

/-- The modules of the blocks of its own, in the order of their opening braces. -/
def Script.owners : Script → List ModId
  | .nil => []
  | .param _ _ rest => rest.owners
  | .block k _ body _ rest => (if k.child then [] else [k.owner]) ++ body.owners ++ rest.owners

/-- The directives have made objects of the modules `ms`, all of them complete, and have changed no
other object than that at `p`. -/
structure Heap.Grows (h h' : Heap) (p : Ptr) (ms : List ModId) : Prop where
  owners : h'.objs.map Obj.owner = h.objs.map Obj.owner ++ ms
  old : ∀ q o, q ≠ p → h.get q = some o → h'.get q = some o
  new : ∀ q o, h.get q = none → h'.get q = some o → o.complete = true

namespace Heap

lemma get_isSome_iff {n : Nat} : (h.get (.obj n)).isSome ↔ n < (h.objs.map Obj.owner).length := by
  simp [get]

lemma Grows.kept (hgrows : h.Grows h' p ms) (hq : (h.get q).isSome) : (h'.get q).isSome := by
  cases q with
  | obj n =>
    rw [get_isSome_iff] at hq ⊢
    rw [hgrows.owners, List.length_append]
    exact Nat.lt_add_right _ hq
  | null | loop | wild => cases hq

lemma Grows.refl (h : Heap) (p : Ptr) : h.Grows h p [] := by
  refine ⟨(List.append_nil _).symm, fun _ _ _ hq => hq, fun q o hnone hq => ?_⟩
  rw [hnone] at hq
  cases hq

lemma Grows.trans (hgrows : h.Grows h₁ p ms) (hgrows' : h₁.Grows h' p ms')
    (hp : (h.get p).isSome ∨ p = .null) : h.Grows h' p (ms ++ ms') := by
  refine ⟨?_, ?_, ?_⟩
  · rw [hgrows'.owners, hgrows.owners, List.append_assoc]
  · intro q o hne hq
    exact hgrows'.old q o hne (hgrows.old q o hne hq)
  · intro q o hnone hq
    cases hmid : h₁.get q with
    | none => exact hgrows'.new q o hmid hq
    | some o₁ =>
      have hne : q ≠ p := by
        rintro rfl
        rcases hp with hp | hp
        · rw [hnone] at hp
          cases hp
        · rw [hp] at hq
          cases hq
      rw [hgrows'.old q o₁ hne hmid] at hq
      obtain rfl := Option.some.inj hq
      exact hgrows.new q o₁ hnone hmid

lemma Grows.apply (happly : h.apply lib unset k args p = .ok h') : h.Grows h' p [] := by
  obtain ⟨o, o', calls, ho, hmeaning, rfl⟩ := apply_eq happly
  have ho' : ({ h with calls := calls } : Heap).get p = some o := ho
  refine ⟨?_, fun q o hne hq => ?_, fun q o₁ hnone hq => ?_⟩
  · cases p with
    | obj n =>
      obtain ⟨hlt, hn⟩ := List.getElem?_eq_some_iff.mp ho
      rw [set]
      dsimp only
      rw [List.map_set, meaning_owner hmeaning, ← hn, ← List.map_set, List.set_getElem_self,
        List.append_nil]
    | null | loop | wild => cases ho
  · rw [get_set_ne _ hne]
    exact hq
  · by_cases hne : q = p
    · rw [hne, ho] at hnone
      cases hnone
    · rw [get_set_ne _ hne] at hq
      exact absurd (hnone.symm.trans hq) (by simp)

/-- A block of its own makes its object and what its directives make. -/
lemma Grows.own {r : Ptr × Heap} (hchild : k.child = false) (hopened : h.opened lib k = .ok r)
    (hgrows : r.2.Grows h₁ r.1 ms) (hgreets : h₁.Greets)
    (hcomplete : h₁.complete lib r.1 = .ok h') (p : Ptr) : h.Grows h' p (k.owner :: ms) := by
  obtain ⟨rfl, -⟩ := opened_eq hopened
  obtain ⟨o, calls, ho, hcompletion, rfl⟩ := complete_eq hcomplete
  refine ⟨?_, fun q o₁ _ hq => ?_, fun q o₁ hnone hq => ?_⟩
  · have howners := hgrows.owners
    rw [alloc, List.map_append, List.append_assoc] at howners
    exact howners.trans (congrArg (h.objs.map Obj.owner ++ · :: ms) (k.owner_fresh hchild))
  · have hne : q ≠ (h.alloc (k.fresh lib)).1 := by
      rintro rfl
      rw [get_alloc_none] at hq
      cases hq
    refine hgrows.old q o₁ hne ?_
    rw [get_alloc_ne h _ hne]
    exact hq
  · by_cases hne : q = (h.alloc (k.fresh lib)).1
    · rw [hne] at hq
      obtain rfl := Option.some.inj (ho.symm.trans hq)
      refine complete_of_completion (fun welcome heq => ?_) hcompletion
      rw [heq] at ho
      exact hgreets.welcome _ welcome ho
    · refine hgrows.new q o₁ ?_ hq
      rw [get_alloc_ne h _ hne]
      exact hnone

end Heap

/-- What a script has made, when its directives stand in the block of the object at `p`. -/
lemma Script.eval_grows (s : Script) :
    ∀ {p : Ptr} {h h' : Heap}, h.Greets → (h.get p).isSome ∨ p = .null →
      s.eval lib unset p h = .ok h' → h.Grows h' p s.owners := by
  induction s with
  | nil =>
    intro p h h' _ _ heval
    cases heval
    exact .refl h p
  | param k l rest ih =>
    intro p h h' hg hp heval
    obtain ⟨h₁, hok, heval⟩ := Except.bind_eq_ok_iff.mp heval
    have hgrows := Heap.Grows.apply hok
    exact hgrows.trans (ih (hg.apply hok) (hp.imp_left hgrows.kept) heval) hp
  | block k l body left rest ihbody ihrest =>
    intro p h h' hg hp heval
    rw [Script.eval] at heval
    rw [Script.owners]
    split_ifs at heval ⊢ with hchild
    · obtain ⟨h₂, hblock, heval⟩ := Except.bind_eq_ok_iff.mp heval
      obtain ⟨h₁, hok, hbody⟩ := Except.bind_eq_ok_iff.mp hblock
      have hgrows := Heap.Grows.apply hok
      have hgrows' := hgrows.trans (ihbody (hg.apply hok) (hp.imp_left hgrows.kept) hbody) hp
      exact hgrows'.trans (ihrest (Script.eval_greets (hg.apply hok) hbody)
        (hp.imp_left hgrows'.kept) heval) hp
    · obtain ⟨h₃, hblock, heval⟩ := Except.bind_eq_ok_iff.mp heval
      obtain ⟨r, hopen, hclosed⟩ := Except.bind_eq_ok_iff.mp hblock
      obtain ⟨h₂, hbody, hclose⟩ := Except.bind_eq_ok_iff.mp hclosed
      have hchild' : k.child = false := by simpa using hchild
      have hr : (r.2.get r.1).isSome := by
        obtain ⟨rfl, -⟩ := Heap.opened_eq hopen
        rw [get_alloc_self]
        rfl
      have hgreets := hg.opened hchild' hopen
      have hgreets' := Script.eval_greets hgreets hbody
      have hgrows := Heap.Grows.own hchild' hopen (ihbody hgreets (.inl hr) hbody) hgreets' hclose p
      obtain ⟨o, calls, -, -, rfl⟩ := Heap.complete_eq hclose
      exact hgrows.trans (ihrest (hgreets'.of_objs rfl) (hp.imp_left hgrows.kept) heval) hp

lemma greets_nil : (⟨[], []⟩ : Heap).Greets :=
  ⟨fun p _ hp => (by cases p <;> cases hp), Nat.zero_le 1⟩

/-! ### Start-up -/

/-- The calls that are made at start-up for an object. -/
def Obj.starts (p : Ptr) : Obj → List StartCall
  | .version welcome => welcome.toList.map .printf
  | .timer t => [.uvTimerInit p, .uvTimerStart p t.timeout t.rep]
  | .http _ => [.uvListen p fsDefaultBacklog]
  | .listener _ => listenerCalls p

namespace Heap

/-- The calls for the object at `p`. -/
def startsAt (h : Heap) (p : Ptr) : List StartCall := (h.get p).elim [] (Obj.starts p)

/-- The calls for the objects of a module, in the order in which they were allocated. -/
def starts (h : Heap) (m : ModId) : List StartCall := (h.contexts m).flatMap h.startsAt

/-- The only object of a module that is given its loop: the last one. -/
def looped (h : Heap) (m : ModId) : Option Ptr :=
  match m with
  | .http | .kafkaListener => (h.contexts m).getLast?
  | _ => none

lemma contexts_route (h : Heap) {m : ModId} (hm : m = .httpKafka ∨ m = .httpProxy) :
    h.contexts m = [] := by
  rw [List.eq_nil_iff_forall_not_mem]
  intro p hp
  obtain ⟨o, -, howner⟩ := mem_contexts.mp hp
  rcases hm with rfl | rfl <;> cases o <;> cases howner

end Heap

variable {c : Engine} {m : ModId} {ps : List Ptr} {s s' : Startup}

/-- The loop over contexts that are all there. -/
lemma eachCtx_eq {body : Ptr → Option (List StartCall)} {calls : Ptr → List StartCall}
    (hbody : ∀ p ∈ ps, body p = some (calls p)) (s : Startup) :
    eachCtx body (ps.map some) s = some (s.call (ps.flatMap calls)) := by
  induction ps generalizing s with
  | nil => simp [eachCtx, Startup.call]
  | cons p ps ih =>
    obtain ⟨hp, hps⟩ := List.forall_mem_cons.mp hbody
    rw [List.map_cons, eachCtx, hp]
    dsimp only
    rw [ih hps]
    simp [Startup.call]

/-- The loop, and the store behind it in the last context. -/
lemma eachCtx_stored {body : Ptr → Option (List StartCall)} {calls : Ptr → List StartCall}
    (hbody : ∀ p ∈ ps, body p = some (calls p)) (hne : ps ≠ []) (s : Startup) :
    ∃ s', (eachCtx body (ps.map some) s).bind (storeLoop (ps.map some)) = some s' ∧
      s'.calls = s.calls ++ ps.flatMap calls ∧
      ∀ q, s'.loop q = some .loop ↔ s.loop q = some .loop ∨ ps.getLast? = some q := by
  have hlast : (ps.map some).getLast?.join = some (ps.getLast hne) := by
    rw [List.getLast?_map, List.getLast?_eq_getLast_of_ne_nil hne]
    rfl
  refine ⟨(s.call (ps.flatMap calls)).setLoop (ps.getLast hne), ?_, rfl, fun q => ?_⟩
  · rw [eachCtx_eq hbody, Option.bind_some, storeLoop, hlast, Option.map_some]
  · change Function.update s.loop (ps.getLast hne) (some .loop) q = some .loop ↔ _
    rw [Function.update_apply, List.getLast?_eq_getLast_of_ne_nil hne, Option.some.injEq,
      eq_comm (a := ps.getLast hne)]
    split_ifs with heq <;> simp [heq]

/-- The turn of a module at start-up. -/
lemma Holds.turn (hc : Holds c h) (hg : h.Greets) (m : ModId) (s : Startup) :
    ∃ s', initedTurn c m s = some s' ∧ s'.calls = s.calls ++ h.starts m ∧
      ∀ q, s'.loop q = some .loop ↔ s.loop q = some .loop ∨ h.looped m = some q := by
  by_cases hused : c.used m
  · obtain ⟨a, ha, hcontents⟩ := hc.ctxs m hused
    have hne : h.contexts m ≠ [] := (hc.used m).mp hused
    have hobj : ∀ p ∈ h.contexts m, ∃ o, c.heap.get p = some o ∧ o.owner = m ∧
        h.startsAt p = o.starts p := by
      intro p hp
      obtain ⟨o, ho, howner⟩ := Heap.mem_contexts.mp hp
      exact ⟨o, by rw [hc.heap, ho], howner, by rw [Heap.startsAt, ho]; rfl⟩
    rw [initedTurn, if_pos hused, ha]
    cases m with
    | version =>
      change ∃ s', fsModVersionInited c a.contents s = some s' ∧ _
      obtain ⟨p, hp⟩ := List.length_eq_one_iff.mp
        (le_antisymm hg.single (List.length_pos_iff.mpr hne))
      obtain ⟨o, ho, howner, hstarts⟩ := hobj p (by rw [hp]; exact List.mem_singleton_self p)
      cases o with
      | version welcome =>
        obtain ⟨text, rfl⟩ := Option.isSome_iff_exists.mp
          (hg.welcome p welcome (by rw [← hc.heap, ho]))
        refine ⟨s.call [.printf text], ?_, ?_, fun q => by simp [Heap.looped, Startup.call]⟩
        · rw [fsModVersionInited, hcontents, hp]
          simp [ho]
        · rw [Heap.starts, hp, List.flatMap_singleton, hstarts]
          rfl
      | timer | http | listener => cases howner
    | timer =>
      refine ⟨s.call (h.starts .timer), ?_, rfl, fun q => by simp [Heap.looped, Startup.call]⟩
      change fsModTimerInitedCalls c a.contents s = _
      rw [hcontents, fsModTimerInitedCalls, eachCtx_eq fun p hp => ?_]
      · rfl
      · obtain ⟨o, ho, howner, hstarts⟩ := hobj p hp
        rw [ho, hstarts]
        cases o with
        | timer t => rfl
        | version | http | listener => cases howner
    | http =>
      change ∃ s', fsModHttpInited c a.contents s = some s' ∧ _
      rw [hcontents, fsModHttpInited]
      refine eachCtx_stored (fun p hp => ?_) hne s
      obtain ⟨o, ho, howner, hstarts⟩ := hobj p hp
      rw [ho, hstarts]
      cases o with
      | http block => rfl
      | version | timer | listener => cases howner
    | kafkaListener =>
      change ∃ s', fsModKafkaListenerInited c a.contents s = some s' ∧ _
      rw [hcontents, fsModKafkaListenerInited]
      refine eachCtx_stored (fun p hp => ?_) hne s
      obtain ⟨o, ho, howner, hstarts⟩ := hobj p hp
      rw [ho, hstarts]
      cases o with
      | listener l => rfl
      | version | timer | http => cases howner
    | httpKafka => exact absurd (h.contexts_route (.inl rfl)) hne
    | httpProxy => exact absurd (h.contexts_route (.inr rfl)) hne
  · have hnil : h.contexts m = [] := by
      by_contra hne
      exact hused ((hc.used m).mpr hne)
    refine ⟨s, by rw [initedTurn, if_neg hused], ?_, fun q => ?_⟩
    · rw [Heap.starts, hnil, List.flatMap_nil, List.append_nil]
    · cases m <;> simp [Heap.looped, hnil]

/-- The turns of all modules. -/
lemma Holds.turns (hc : Holds c h) (hg : h.Greets) (mods : List (FsMod ModId Callback)) :
    ∀ s : Startup, ∃ s', mods.foldlM (fun s m => initedTurn c m.id s) s = some s' ∧
      s'.calls = s.calls ++ mods.flatMap (fun m => h.starts m.id) ∧
      ∀ q, s'.loop q = some .loop ↔
        s.loop q = some .loop ∨ ∃ m ∈ mods, h.looped m.id = some q := by
  induction mods with
  | nil => exact fun s => ⟨s, rfl, by simp, by simp⟩
  | cons m mods ih =>
    intro s
    obtain ⟨s₁, hturn, hcalls, hloop⟩ := hc.turn hg m.id s
    obtain ⟨s', hturns, hcalls', hloop'⟩ := ih s₁
    refine ⟨s', ?_, ?_, fun q => ?_⟩
    · rw [List.foldlM_cons, hturn]
      exact hturns
    · rw [hcalls', hcalls, List.append_assoc, List.flatMap_cons]
    · rw [hloop', hloop, or_assoc, List.exists_mem_cons_iff]

/-! ### Scripts that are accepted -/

variable {mods : List (FsMod ModId Callback)}

/-- What a parse that accepts a script leaves. -/
lemma holds_of_builds {r : Verdict × Engine} {e : Except Fault Heap} (hbuilds : Builds r e)
    (hok : r.1 = .ok) : ∃ h, e = .ok h ∧ Holds r.2 h := by
  cases hbuilds with
  | accepted hholds => exact ⟨_, rfl, hholds⟩
  | rejected => cases hok
  | undefined => cases hok

/-- A parse that accepts a script leaves one object for each block of its own, in the order of the
opening braces, and all of them are complete. -/
theorem complete_of_script (unset : Heap → Callback → Bool) (hmods : mods.Perm shippedMods)
    (hlib : ∀ (c : Engine) k, lib.uninitNull c k = unset c.heap k) (junk : Junk)
    {io : ReadOutcome} (hio : ∀ off, io off = true) {text : List UInt8} {mode : ParseMode}
    {f : FsFile} (hf : Delivered text mode f) (huncut : mode.Uncut text) {s : Script}
    (htext : textDirectives text = s.directives) (hplaced : s.Placed none)
    (hroomy : s.Roomy false 0) {tokens : FsArr FsStr} {c : Engine}
    (hok : parseEnd (shippedEnv mods lib junk) io mode (f.remaining + 2) f
      (Conf.start tokens ⟨[], []⟩) = (.ok, c)) :
    c.heap.objs.map Obj.owner = s.owners ∧ ∀ o ∈ c.heap.objs, o.complete = true := by
  have hbuilds := hf.builds hmods hlib junk hio huncut htext hplaced hroomy tokens
  rw [hok] at hbuilds
  obtain ⟨h, heval, hholds⟩ := holds_of_builds hbuilds rfl
  have hgrows := s.eval_grows greets_nil (.inr rfl) heval
  rw [hholds.heap]
  refine ⟨hgrows.owners, fun o ho => ?_⟩
  obtain ⟨i, hi⟩ := List.getElem?_of_mem ho
  exact hgrows.new (.obj i) o rfl hi

lemma mixedParse_eq : mixedParse = (.ok, mixedParse.2) := by
  have hok : mixedParse.1 = .ok := by decide +kernel
  exact Prod.ext hok rfl

theorem complete_of_script_mixed :
    mixedParse.2.heap.objs.map Obj.owner = [.timer, .http] ∧
      ∀ o ∈ mixedParse.2.heap.objs, o.complete = true :=
  complete_of_script (fun _ _ => true) (List.Perm.refl _) (fun _ _ => rfl) .null
    (fun _ => rfl) (.file []) uncut_mixedText directives_mixedScript placed_mixedScript
    roomy_mixedScript mixedParse_eq

/-- Start-up behind a script that has been accepted reads nothing that is not there. It makes the
calls of every object once, module by module in the order of the build, and stores the loop in the
last http block and in the last listener. -/
theorem started_of_script (unset : Heap → Callback → Bool) (hmods : mods.Perm shippedMods)
    (hlib : ∀ (c : Engine) k, lib.uninitNull c k = unset c.heap k) (junk : Junk)
    {io : ReadOutcome} (hio : ∀ off, io off = true) {text : List UInt8} {mode : ParseMode}
    {f : FsFile} (hf : Delivered text mode f) (huncut : mode.Uncut text) {s : Script}
    (htext : textDirectives text = s.directives) (hplaced : s.Placed none)
    (hroomy : s.Roomy false 0) {tokens : FsArr FsStr} {c : Engine}
    (hok : parseEnd (shippedEnv mods lib junk) io mode (f.remaining + 2) f
      (Conf.start tokens ⟨[], []⟩) = (.ok, c)) :
    ∃ st, fsGmodInited mods c = some st ∧
      st.calls = mods.flatMap (fun m => c.heap.starts m.id) ∧
      ∀ p, st.loop p = some .loop ↔ ∃ m, c.heap.looped m = some p := by
  have hbuilds := hf.builds hmods hlib junk hio huncut htext hplaced hroomy tokens
  rw [hok] at hbuilds
  obtain ⟨h, heval, hholds⟩ := holds_of_builds hbuilds rfl
  obtain ⟨st, hturns, hcalls, hloop⟩ :=
    hholds.turns (Script.eval_greets greets_nil heval) mods .init
  rw [hholds.heap]
  refine ⟨st, hturns, hcalls, fun p => ?_⟩
  rw [hloop, or_iff_right (by simp [Startup.init])]
  constructor
  · rintro ⟨m, -, hm⟩
    exact ⟨m.id, hm⟩
  · rintro ⟨m, hm⟩
    have hmem : ∀ m : ModId, ∃ mod ∈ shippedMods, mod.id = m := by
      intro m
      cases m <;> simp [shippedMods, fsModVersion, fsModTimer, fsModHttp, fsModHttpKafka,
        fsModHttpProxy, fsModKafkaListener]
    obtain ⟨mod, hmod, rfl⟩ := hmem m
    exact ⟨mod, hmods.mem_iff.mpr hmod, hm⟩

end

theorem started_of_script_mixed :
    ∃ st, fsGmodInited shippedMods mixedParse.2 = some st ∧
      st.calls = shippedMods.flatMap (fun m => mixedParse.2.heap.starts m.id) ∧
      ∀ p, st.loop p = some .loop ↔ ∃ m, mixedParse.2.heap.looped m = some p :=
  started_of_script (fun _ _ => true) (List.Perm.refl _) (fun _ _ => rfl) .null
    (fun _ => rfl) (.file []) uncut_mixedText directives_mixedScript placed_mixedScript
    roomy_mixedScript mixedParse_eq

end Folksong
