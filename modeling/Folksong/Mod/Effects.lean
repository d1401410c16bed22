import Folksong.Mod.Table

/-!
# What the callbacks do to the types in memory

`Shape` is the type of an object, and for an http object the type of the route added last.
`call_effect` says for every callback when it passes and what it leaves: it passes before it has
touched anything, and on an object of its own type it changes no other object and keeps the
types, except that a publisher or proxy block adds a route.
-/

namespace Folksong

inductive RouteKind where
  | publisher | proxy
deriving DecidableEq, Repr

/-- The type of an object. -/
inductive Shape where
  | version | timer
  | http (last : Option RouteKind)
  | listener
deriving DecidableEq, Repr

def Route.kind : Route → RouteKind
  | .publisher _ => .publisher
  | .proxy _ => .proxy

def Obj.shape : Obj → Shape
  | .version _ => .version
  | .timer _ => .timer
  | .http h => .http (h.lastRoute.map Route.kind)
  | .listener _ => .listener

/-- The type of the object behind a pointer. -/
def Heap.shape (h : Heap) (p : Ptr) : Option Shape := (h.get p).map Obj.shape

/-! ### Memory -/

namespace Heap

lemma get_set_self {h : Heap} {p : Ptr} {o : Obj} (ho : h.get p = some o) (o' : Obj) :
    (h.set p o').get p = some o' := by
  cases p with
  | obj n =>
    obtain ⟨hlt, -⟩ := List.getElem?_eq_some_iff.mp ho
    simp [get, set, hlt]
  | null => cases ho
  | loop => cases ho
  | wild => cases ho

lemma get_set_ne (h : Heap) {p q : Ptr} (hne : q ≠ p) (o : Obj) : (h.set p o).get q = h.get q := by
  cases p with
  | obj n =>
    cases q with
    | obj m =>
      have hmn : n ≠ m := fun heq => hne (heq ▸ rfl)
      simp [get, set, List.getElem?_set_ne hmn]
    | null => rfl
    | loop => rfl
    | wild => rfl
  | null => rfl
  | loop => rfl
  | wild => rfl

@[simp] lemma set_length (h : Heap) (p : Ptr) (o : Obj) :
    (h.set p o).objs.length = h.objs.length := by
  cases p <;> simp [set]

lemma shape_set {h : Heap} {p : Ptr} {o : Obj} (ho : h.get p = some o) (o' : Obj) :
    (h.set p o').shape = Function.update h.shape p (some o'.shape) := by
  funext q
  by_cases hq : q = p
  · subst hq
    rw [shape, get_set_self ho, Function.update_self]
    rfl
  · rw [shape, get_set_ne h hq, Function.update_of_ne hq]
    rfl

/-- A store that keeps the type of the object. -/
lemma shape_set_same {h : Heap} {p : Ptr} {o o' : Obj} (ho : h.get p = some o)
    (hs : o'.shape = o.shape) : (h.set p o').shape = h.shape := by
  rw [shape_set ho, hs]
  apply Function.update_eq_self_iff.mpr
  rw [shape, ho]
  rfl

@[simp] lemma callLib_objs (lib : Lib) (h : Heap) (l : LibCall) :
    (h.callLib lib l).2.objs = h.objs := rfl

lemma get_congr {h h' : Heap} (heq : h'.objs = h.objs) (p : Ptr) : h'.get p = h.get p := by
  cases p <;> simp [get, heq]

lemma shape_congr {h h' : Heap} (heq : h'.objs = h.objs) : h'.shape = h.shape := by
  funext p
  rw [shape, get_congr heq, shape]

/-- A fresh object changes no other one. -/
lemma get_alloc_ne (h : Heap) (o : Obj) {p : Ptr} (hp : p ≠ (h.alloc o).1) :
    (h.alloc o).2.get p = h.get p := by
  cases p with
  | obj n =>
    have hn : n ≠ h.objs.length := fun heq => hp (heq ▸ rfl)
    simp only [get, alloc]
    rcases Nat.lt_or_gt_of_ne hn with hlt | hgt
    · rw [List.getElem?_append_left hlt]
    · rw [List.getElem?_eq_none (by simp; omega), List.getElem?_eq_none (by omega)]
  | null => rfl
  | loop => rfl
  | wild => rfl

lemma shape_alloc (h : Heap) (o : Obj) :
    (h.alloc o).2.shape = Function.update h.shape (h.alloc o).1 (some o.shape) := by
  funext p
  by_cases hp : p = (h.alloc o).1
  · subst hp
    simp [shape, get, alloc]
  · rw [Function.update_of_ne hp, shape, get_alloc_ne h o hp]
    rfl

lemma get_alloc_none (h : Heap) (o : Obj) : h.get (h.alloc o).1 = none := by
  simp [get, alloc]

end Heap

lemma lastRoute_push (http : Http) (r : Route) :
    ({ http with routes := http.routes.push r } : Http).lastRoute = some r := by
  simp [Http.lastRoute, FsArr.push_nth_self]

lemma lastRoute_setLast {http : Http} {r : Route} (h : http.lastRoute = some r) (r' : Route) :
    (http.setLast r').lastRoute = some r' := by
  rw [Http.lastRoute] at h
  split_ifs at h with hne
  have hlt : http.routes.eleCount - 1 < http.routes.elems.length := by
    have := http.routes.count_le
    omega
  simp [Http.lastRoute, Http.setLast, hne, FsArr.write_nth_self _ _ hlt]

/-! ### The callbacks -/

/-- The module a callback belongs to. -/
def Callback.owner : Callback → ModId
  | .versionInit | .versionArt => .version
  | .timerBlock | .timerTimeout | .timerRepeat | .timerExec => .timer
  | .httpBlock | .httpHost | .httpPort => .http
  | .httpKafkaBlock | .httpKafkaConfig | .httpKafkaTopicParam | .httpKafkaDefaultTopic
  | .httpKafkaKeyParam | .httpKafkaDefaultKey => .httpKafka
  | .httpProxyBlock | .httpProxyPassPath => .httpProxy
  | .kafkaListenerBlock | .kafkaListenerConfig | .kafkaListenerTopic | .kafkaListenerExec =>
    .kafkaListener

/-- The callback goes beyond the tests at its start that make it pass. -/
def Callback.guard (k : Callback) (c : Engine) : Prop :=
  match k with
  | .versionInit | .versionArt | .timerBlock | .httpBlock => True
  | .timerTimeout | .timerRepeat | .timerExec => topMod c = some .timer
  | .httpHost | .httpPort => topMod c = some .http
  | .httpKafkaBlock | .httpProxyBlock | .httpProxyPassPath => subtopMod c = some .http
  | .httpKafkaConfig | .httpKafkaTopicParam | .httpKafkaDefaultTopic | .httpKafkaKeyParam
  | .httpKafkaDefaultKey => topCmd c = some .httpKafkaBlock
  | .kafkaListenerBlock | .kafkaListenerTopic | .kafkaListenerExec =>
    topMod c = some .kafkaListener
  | .kafkaListenerConfig =>
    topMod c = some .kafkaListener ∧ topCmd c = some .kafkaListenerBlock

/-- The callback goes beyond all tests of its place in the configuration. -/
def Callback.applies (k : Callback) (c : Engine) : Prop :=
  k.guard c ∧
    match k with
    | .kafkaListenerTopic => subtopCmd c = some .kafkaListenerBlock
    | .kafkaListenerExec => topCmd c = some .kafkaListenerTopic
    | _ => True

/-- The type of object the callback casts its context to, with the type of the route it works
on. -/
def Callback.wants : Callback → Shape → Prop
  | .versionInit, s | .versionArt, s => s = .version
  | .timerTimeout, s | .timerRepeat, s | .timerExec, s => s = .timer
  | .httpHost, s | .httpPort, s | .httpKafkaBlock, s | .httpProxyBlock, s => ∃ last, s = .http last
  | .httpKafkaConfig, s | .httpKafkaTopicParam, s | .httpKafkaDefaultTopic, s
  | .httpKafkaKeyParam, s | .httpKafkaDefaultKey, s => s = .http (some .publisher)
  | .httpProxyPassPath, s => s = .http (some .proxy)
  | .kafkaListenerConfig, s | .kafkaListenerTopic, s | .kafkaListenerExec, s => s = .listener
  | .timerBlock, _ | .httpBlock, _ | .kafkaListenerBlock, _ => True

/-- The type of object on which the callback does what it should, or no harm: `fs_version_art`
only stores a pointer into its object. -/
def Callback.handles : Callback → Shape → Prop
  | .versionArt, _ => True
  | k, s => k.wants s

lemma Callback.handles_of_wants {k : Callback} {s : Shape} (h : k.wants s) : k.handles s := by
  cases k <;> first | exact h | trivial

/-- The type of the object after the callback. -/
def Callback.leaves : Callback → Shape → Shape
  | .httpKafkaBlock, .http _ => .http (some .publisher)
  | .httpProxyBlock, .http _ => .http (some .proxy)
  | _, s => s

/-- What a callback does that meets an object of the type it wants. -/
structure Effect (k : Callback) (c : Engine) (p : Ptr) (r : Ret) (h : Heap) : Prop where
  pass : r = .pass → h = c.heap ∧ ¬ k.guard c
  ok : r = .ok → k.applies c ∧ h.objs.length = c.heap.objs.length ∧
    h.shape = Function.update c.heap.shape p ((c.heap.shape p).map k.leaves)
  frame : r = .ok → ∀ q ≠ p, h.get q = c.heap.get q

/-- Every defined result satisfies `P`. -/
def Called.All (x : Called) (P : Ret → Heap → Prop) : Prop := ∀ r h, x = some (r, h) → P r h

namespace Called

variable {P : Ret → Heap → Prop}

lemma all_none : All none P := fun _ _ h => by cases h

lemma all_some {r : Ret} {h : Heap} (hp : P r h) : All (some (r, h)) P := by
  intro r' h' heq
  cases heq
  exact hp

lemma all_ite {q : Prop} [Decidable q] {x y : Called} (hx : q → All x P) (hy : ¬ q → All y P) :
    All (if q then x else y) P := by
  split_ifs with hq
  · exact hx hq
  · exact hy hq

end Called

namespace Effect

variable {k : Callback} {c : Engine} {p : Ptr}

lemma error (h : Heap) : Effect k c p .error h :=
  ⟨nofun, nofun, nofun⟩

lemma passed (hg : ¬ k.guard c) : Effect k c p .pass c.heap :=
  ⟨fun _ => ⟨rfl, hg⟩, nofun, nofun⟩

/-- A callback that answers `FS_CONF_OK` and keeps all types. -/
lemma kept {h : Heap} (ha : k.applies c) (hl : h.objs.length = c.heap.objs.length)
    (hs : h.shape = c.heap.shape) (hk : ∀ s, c.heap.shape p = some s → k.leaves s = s)
    (hframe : ∀ q ≠ p, h.get q = c.heap.get q) : Effect k c p .ok h := by
  refine ⟨nofun, fun _ => ⟨ha, hl, ?_⟩, fun _ => hframe⟩
  rw [hs, eq_comm]
  apply Function.update_eq_self_iff.mpr
  cases hp : c.heap.shape p with
  | none => rfl
  | some s => exact congrArg some (hk s hp)

/-- A store to an object that keeps its type. -/
lemma stored {o o' : Obj} (ha : k.applies c) (ho : c.heap.get p = some o)
    (hs : o'.shape = o.shape) (hk : k.leaves o.shape = o.shape) :
    Effect k c p .ok (c.heap.set p o') := by
  refine kept ha (Heap.set_length _ _ _) (Heap.shape_set_same ho hs) (fun s hshape => ?_)
    fun q hq => Heap.get_set_ne _ hq _
  rw [Heap.shape, ho] at hshape
  cases hshape
  exact hk

end Effect

section

variable {lib : Lib} {c : Engine} {p : Ptr}

/-- The object behind the context is one the callback wants, whenever the callback gets as far
as to look at it. -/
def Suited (k : Callback) (c : Engine) (p : Ptr) : Prop :=
  k.applies c → ∃ o, c.heap.get p = some o ∧ k.wants o.shape

/-- The same for an object the callback does no harm to. -/
def Harmless (k : Callback) (c : Engine) (p : Ptr) : Prop :=
  k.applies c → ∃ o, c.heap.get p = some o ∧ k.handles o.shape

lemma Suited.harmless {k : Callback} (h : Suited k c p) : Harmless k c p := by
  intro happ
  obtain ⟨o, ho, hw⟩ := h happ
  exact ⟨o, ho, Callback.handles_of_wants hw⟩

lemma Harmless.suited {k : Callback} (h : Harmless k c p) (hk : k ≠ .versionArt) :
    Suited k c p := by
  intro happ
  obtain ⟨o, ho, hw⟩ := h happ
  refine ⟨o, ho, ?_⟩
  cases k <;> first | exact hw | exact absurd rfl hk

lemma timerCmdTime_effect {k : Callback} {flag : Timer → Bool} {store : Timer → Nat → Timer}
    (hguard : k.guard c ↔ topMod c = some .timer) (happ : k.applies c ↔ k.guard c)
    (hwants : ∀ s, k.wants s ↔ s = .timer) (hleaves : ∀ s, k.leaves s = s)
    (hp : Suited k c p) : (timerCmdTime k flag store lib c p).All (Effect k c p) := by
  rw [timerCmdTime]
  refine Called.all_ite (fun hg => Called.all_some (.passed fun h => hg (hguard.mp h))) fun hg => ?_
  have ha : k.applies c := happ.mpr (hguard.mpr (not_not.mp hg))
  obtain ⟨o, ho, hw⟩ := hp ha
  rw [hwants] at hw
  cases o with
  | timer t =>
    simp only [ho]
    refine Called.all_ite (fun _ => Called.all_some (.error _)) fun _ => ?_
    refine Called.all_ite (fun _ => Called.all_some (.error _)) fun _ => ?_
    cases tokenText c 1 with
    | none => exact Called.all_none
    | some text =>
      dsimp only
      cases fsModTimerParseTime text with
      | none => exact Called.all_some (Effect.error _)
      | some n => exact Called.all_some (Effect.stored ha ho rfl (hleaves _))
  | version => cases hw
  | http => cases hw
  | listener => cases hw

/-- The publisher commands keep the type of the route they work on. -/
lemma publisherCmd_effect {k : Callback} {words : Nat}
    {store : Publisher → Engine → Option (Option Publisher)}
    (hguard : k.guard c ↔ topCmd c = some .httpKafkaBlock) (happ : k.applies c ↔ k.guard c)
    (hwants : ∀ s, k.wants s ↔ s = .http (some .publisher)) (hleaves : ∀ s, k.leaves s = s)
    (hp : Suited k c p) : (publisherCmd k words store lib c p).All (Effect k c p) := by
  rw [publisherCmd]
  refine Called.all_ite (fun hg => Called.all_some (.passed fun h => hg (hguard.mp h))) fun hg => ?_
  refine Called.all_ite (fun _ => Called.all_some (.error _)) fun _ => ?_
  have ha : k.applies c := happ.mpr (hguard.mpr (not_not.mp hg))
  obtain ⟨o, ho, hw⟩ := hp ha
  rw [hwants] at hw
  cases o with
  | http http =>
    simp only [Obj.shape, Shape.http.injEq, Option.map_eq_some_iff] at hw
    obtain ⟨r, hr, hkind⟩ := hw
    cases r with
    | publisher publisher =>
      simp only [ho, hr]
      cases store publisher c with
      | none => exact Called.all_none
      | some res =>
        cases res with
        | none => exact Called.all_some (Effect.error _)
        | some publisher' =>
          refine Called.all_some (Effect.stored ha ho ?_ (hleaves _))
          simp [Obj.shape, lastRoute_setLast hr, hr, Route.kind]
    | proxy => cases hkind
  | version => cases hw
  | timer => cases hw
  | listener => cases hw

lemma passPath_effect (hp : Suited .httpProxyPassPath c p) :
    (fsModHttpProxyCmdPassPath lib c p).All (Effect .httpProxyPassPath c p) := by
  rw [fsModHttpProxyCmdPassPath]
  refine Called.all_ite (fun hg => Called.all_some (.passed hg)) fun hg => ?_
  refine Called.all_ite (fun _ => Called.all_some (.error _)) fun _ => ?_
  have ha : Callback.applies .httpProxyPassPath c := ⟨not_not.mp hg, trivial⟩
  obtain ⟨o, ho, hw⟩ := hp ha
  cases o with
  | http http =>
    simp only [Callback.wants, Obj.shape, Shape.http.injEq, Option.map_eq_some_iff] at hw
    obtain ⟨r, hr, hkind⟩ := hw
    cases r with
    | proxy proxy =>
      simp only [ho, hr]
      refine Called.all_ite (fun _ => Called.all_some (.error _)) fun _ => ?_
      cases c.tokens.nth 1 with
      | none => exact Called.all_none
      | some token =>
        cases hv : (varPieces lib token).1 with
        | false =>
          simp only [hv]
          exact Called.all_some (Effect.error _)
        | true =>
          simp only [hv]
          refine Called.all_some (Effect.stored ha ho ?_ rfl)
          simp [Obj.shape, lastRoute_setLast hr, hr, Route.kind]
    | publisher => cases hkind
  | version => cases hw
  | timer => cases hw
  | listener => cases hw

lemma httpCmdHost_effect (hp : Suited .httpHost c p) :
    (fsModHttpCmdHost lib c p).All (Effect .httpHost c p) := by
  rw [fsModHttpCmdHost]
  refine Called.all_ite (fun hg => Called.all_some (.passed hg)) fun hg => ?_
  refine Called.all_ite (fun _ => Called.all_some (.error _)) fun _ => ?_
  have ha : Callback.applies .httpHost c := ⟨not_not.mp hg, trivial⟩
  obtain ⟨o, ho, last, hw⟩ := hp ha
  cases o with
  | http http =>
    simp only [ho]
    cases c.tokens.nth 1 with
    | none => exact Called.all_none
    | some host => exact Called.all_some (Effect.stored ha ho rfl rfl)
  | version => cases hw
  | timer => cases hw
  | listener => cases hw

lemma httpCmdPort_effect (hp : Suited .httpPort c p) :
    (fsModHttpCmdPort lib c p).All (Effect .httpPort c p) := by
  rw [fsModHttpCmdPort]
  refine Called.all_ite (fun hg => Called.all_some (.passed hg)) fun hg => ?_
  refine Called.all_ite (fun _ => Called.all_some (.error _)) fun _ => ?_
  have ha : Callback.applies .httpPort c := ⟨not_not.mp hg, trivial⟩
  obtain ⟨o, ho, last, hw⟩ := hp ha
  cases o with
  | http http =>
    simp only [ho]
    cases tokenText c 1 with
    | none => exact Called.all_none
    | some text => exact Called.all_some (Effect.stored ha ho rfl rfl)
  | version => cases hw
  | timer => cases hw
  | listener => cases hw

lemma timerCmdExec_effect (hp : Suited .timerExec c p) :
    (fsModTimerCmdExec lib c p).All (Effect .timerExec c p) := by
  rw [fsModTimerCmdExec]
  refine Called.all_ite (fun hg => Called.all_some (.passed hg)) fun hg => ?_
  have ha : Callback.applies .timerExec c := ⟨not_not.mp hg, trivial⟩
  obtain ⟨o, ho, hw⟩ := hp ha
  cases o with
  | timer t =>
    simp only [ho]
    exact Called.all_ite (fun _ => Called.all_some (Effect.stored ha ho rfl rfl))
      fun _ => Called.all_none
  | version => cases hw
  | http => cases hw
  | listener => cases hw

/-- What a block that adds a route leaves. -/
lemma Effect.added {k : Callback} {http : Http} {r : Route} {h : Heap} (ha : k.applies c)
    (ho : c.heap.get p = some (.http http)) (hobjs : h.objs = c.heap.objs)
    (hleaves : ∀ last, k.leaves (.http last) = .http (some r.kind)) :
    Effect k c p .ok (h.set p (.http { http with routes := http.routes.push r })) := by
  refine ⟨nofun, fun _ => ⟨ha, ?_, ?_⟩, fun _ q hq => ?_⟩
  · rw [Heap.set_length, hobjs]
  · have ho' : h.get p = some (.http http) := by rw [Heap.get_congr hobjs, ho]
    rw [Heap.shape_set ho', Heap.shape_congr hobjs]
    simp [Heap.shape, ho, Obj.shape, hleaves, lastRoute_push]
  · rw [Heap.get_set_ne _ hq, Heap.get_congr hobjs]

lemma httpKafkaBlock_effect (hp : Suited .httpKafkaBlock c p) :
    (fsModHttpKafkaBlock lib c p).All (Effect .httpKafkaBlock c p) := by
  rw [fsModHttpKafkaBlock]
  refine Called.all_ite (fun hg => Called.all_some (.passed hg)) fun hg => ?_
  refine Called.all_ite (fun _ => Called.all_some (.error _)) fun _ => ?_
  have ha : Callback.applies .httpKafkaBlock c := ⟨not_not.mp hg, trivial⟩
  obtain ⟨o, ho, last, hw⟩ := hp ha
  cases o with
  | http http =>
    simp only [ho]
    cases c.tokens.nth 1 with
    | none => exact Called.all_none
    | some path => exact Called.all_some (Effect.added ha ho rfl fun _ => rfl)
  | version => cases hw
  | timer => cases hw
  | listener => cases hw

lemma httpProxyBlock_effect (hp : Suited .httpProxyBlock c p) :
    (fsModHttpProxyBlock lib c p).All (Effect .httpProxyBlock c p) := by
  rw [fsModHttpProxyBlock]
  refine Called.all_ite (fun hg => Called.all_some (.passed hg)) fun hg => ?_
  refine Called.all_ite (fun _ => Called.all_some (.error _)) fun _ => ?_
  have ha : Callback.applies .httpProxyBlock c := ⟨not_not.mp hg, trivial⟩
  obtain ⟨o, ho, last, hw⟩ := hp ha
  cases o with
  | http http =>
    simp only [ho]
    cases c.tokens.nth 1 with
    | none => exact Called.all_none
    | some path =>
      cases hre : (pcreCompile lib c.heap path.cstr).1.isSome with
      | false =>
        simp only [hre]
        exact Called.all_some (Effect.error _)
      | true =>
        simp only [hre]
        exact Called.all_some (Effect.added ha ho rfl fun _ => rfl)
  | version => cases hw
  | timer => cases hw
  | listener => cases hw

lemma listenerCmdTopic_effect (hp : Suited .kafkaListenerTopic c p) :
    (fsModKafkaListenerCmdTopic lib c p).All (Effect .kafkaListenerTopic c p) := by
  rw [fsModKafkaListenerCmdTopic]
  refine Called.all_ite (fun hg => Called.all_some (.passed hg)) fun hg => ?_
  refine Called.all_ite (fun _ => Called.all_some (.error _)) fun hs => ?_
  refine Called.all_ite (fun _ => Called.all_some (.error _)) fun _ => ?_
  have ha : Callback.applies .kafkaListenerTopic c := ⟨not_not.mp hg, not_not.mp hs⟩
  obtain ⟨o, ho, hw⟩ := hp ha
  cases o with
  | listener l =>
    simp only [ho]
    cases c.tokens.nth 1 with
    | none => exact Called.all_none
    | some name =>
      cases l.topic with
      | wild =>
        exact Called.all_none
      | null =>
        exact Called.all_some (Effect.stored ha ho rfl rfl)
      | arr topics =>
        exact Called.all_some (Effect.stored ha ho rfl rfl)
  | version => cases hw
  | timer => cases hw
  | http => cases hw

lemma listenerCmdConfig_effect (hp : Suited .kafkaListenerConfig c p) :
    (fsModKafkaListenerCmdConfig lib c p).All (Effect .kafkaListenerConfig c p) := by
  rw [fsModKafkaListenerCmdConfig]
  refine Called.all_ite (fun hg => Called.all_some (.passed fun h => hg h.1)) fun hg => ?_
  refine Called.all_ite (fun hs => Called.all_some (.passed fun h => hs h.2)) fun hs => ?_
  refine Called.all_ite (fun _ => Called.all_some (.error _)) fun _ => ?_
  have ha : Callback.applies .kafkaListenerConfig c :=
    ⟨⟨not_not.mp hg, not_not.mp hs⟩, trivial⟩
  obtain ⟨o, ho, hw⟩ := hp ha
  cases o with
  | listener l =>
    simp only [ho]
    split
    next key value _ _ =>
      refine Called.all_ite (fun _ => Called.all_some ?_) fun _ => Called.all_some (.error _)
      have ho' : (c.heap.callLib lib (.rdKafkaConfSet key value)).2.get p = some (.listener l) := ho
      refine .kept ha (Heap.set_length _ _ _) ?_ (fun _ _ => rfl) fun q hq => ?_
      · refine Eq.trans (Heap.shape_set_same ho' ?_) (Heap.shape_congr rfl)
        rfl
      · rw [Heap.get_set_ne _ hq, Heap.get_congr (Heap.callLib_objs _ _ _)]
    next => exact Called.all_none
  | version => cases hw
  | timer => cases hw
  | http => cases hw

lemma listenerCmdExec_effect (hp : Suited .kafkaListenerExec c p) :
    (fsModKafkaListenerCmdExec lib c p).All (Effect .kafkaListenerExec c p) := by
  rw [fsModKafkaListenerCmdExec]
  refine Called.all_ite (fun hg => Called.all_some (.passed hg)) fun hg => ?_
  refine Called.all_ite (fun _ => Called.all_some (.error _)) fun hs => ?_
  have ha : Callback.applies .kafkaListenerExec c := ⟨not_not.mp hg, not_not.mp hs⟩
  obtain ⟨o, ho, hw⟩ := hp ha
  cases o with
  | listener l =>
    simp only [ho]
    cases l.topic with
    | wild =>
      exact Called.all_none
    | null =>
      exact Called.all_none
    | arr topics =>
      refine Called.all_ite (fun _ => Called.all_none) fun _ => ?_
      cases topics.nth (topics.eleCount - 1) with
      | none => exact Called.all_none
      | some topic =>
        exact Called.all_ite (fun _ => Called.all_some (Effect.stored ha ho rfl rfl))
          fun _ => Called.all_none
  | version => cases hw
  | timer => cases hw
  | http => cases hw

lemma versionArt_effect (hp : Harmless .versionArt c p) :
    (fsModVersionArt lib c p).All (Effect .versionArt c p) := by
  have ha : Callback.applies .versionArt c := ⟨trivial, trivial⟩
  obtain ⟨o, ho, -⟩ := hp ha
  cases o with
  | version w =>
    simp only [fsModVersionArt, ho]
    exact Called.all_some (.stored ha ho rfl rfl)
  | timer t =>
    simp only [fsModVersionArt, ho]
    exact Called.all_some (.kept ha rfl rfl (fun _ _ => rfl) fun _ _ => rfl)
  | http h =>
    simp only [fsModVersionArt, ho]
    exact Called.all_some (.kept ha rfl rfl (fun _ _ => rfl) fun _ _ => rfl)
  | listener l =>
    simp only [fsModVersionArt, ho]
    exact Called.all_some (.stored ha ho rfl rfl)

/-- What every callback does that meets an object it handles. -/
theorem call_effect (k : Callback) (hharm : Harmless k c p) :
    (shippedCall lib k c p).All (Effect k c p) := by
  by_cases hk : k = .versionArt
  · subst hk
    exact versionArt_effect hharm
  have hp := hharm.suited hk
  cases k with
  | versionArt => exact absurd rfl hk
  | versionInit =>
    have ha : Callback.applies .versionInit c := ⟨trivial, trivial⟩
    obtain ⟨o, ho, hw⟩ := hp ha
    cases o with
    | version w =>
      simp only [shippedCall, fsModVersionInit, ho]
      exact Called.all_some (.stored ha ho rfl rfl)
    | timer => cases hw
    | http => cases hw
    | listener => cases hw
  | timerBlock => exact Called.all_some (.kept ⟨trivial, trivial⟩ rfl rfl (fun _ _ => rfl) fun _ _ => rfl)
  | timerTimeout =>
    exact timerCmdTime_effect Iff.rfl (and_iff_left trivial) (fun _ => Iff.rfl) (fun _ => rfl) hp
  | timerRepeat =>
    exact timerCmdTime_effect Iff.rfl (and_iff_left trivial) (fun _ => Iff.rfl) (fun _ => rfl) hp
  | timerExec => exact timerCmdExec_effect hp
  | httpBlock => exact Called.all_some (.kept ⟨trivial, trivial⟩ rfl rfl (fun _ _ => rfl) fun _ _ => rfl)
  | httpHost => exact httpCmdHost_effect hp
  | httpPort => exact httpCmdPort_effect hp
  | httpKafkaBlock => exact httpKafkaBlock_effect hp
  | httpKafkaConfig =>
    rw [shippedCall, fsModHttpKafkaCmdConfig]
    exact publisherCmd_effect Iff.rfl (and_iff_left trivial) (fun _ => Iff.rfl) (fun _ => rfl) hp
  | httpKafkaTopicParam =>
    rw [shippedCall, fsModHttpKafkaCmdTopicParam, publisherField]
    exact publisherCmd_effect Iff.rfl (and_iff_left trivial) (fun _ => Iff.rfl) (fun _ => rfl) hp
  | httpKafkaDefaultTopic =>
    rw [shippedCall, fsModHttpKafkaCmdDefaultTopic, publisherField]
    exact publisherCmd_effect Iff.rfl (and_iff_left trivial) (fun _ => Iff.rfl) (fun _ => rfl) hp
  | httpKafkaKeyParam =>
    rw [shippedCall, fsModHttpKafkaCmdKeyParam, publisherField]
    exact publisherCmd_effect Iff.rfl (and_iff_left trivial) (fun _ => Iff.rfl) (fun _ => rfl) hp
  | httpKafkaDefaultKey =>
    rw [shippedCall, fsModHttpKafkaCmdDefaultKey, publisherField]
    exact publisherCmd_effect Iff.rfl (and_iff_left trivial) (fun _ => Iff.rfl) (fun _ => rfl) hp
  | httpProxyBlock => exact httpProxyBlock_effect hp
  | httpProxyPassPath => exact passPath_effect hp
  | kafkaListenerBlock =>
    refine Called.all_ite (fun hg => Called.all_some (.passed hg)) fun hg => ?_
    exact Called.all_some (.kept ⟨not_not.mp hg, trivial⟩ rfl rfl (fun _ _ => rfl) fun _ _ => rfl)
  | kafkaListenerConfig => exact listenerCmdConfig_effect hp
  | kafkaListenerTopic => exact listenerCmdTopic_effect hp
  | kafkaListenerExec => exact listenerCmdExec_effect hp

end

/-! ### The methods -/

/-- The module whose blocks allocate objects of this type. -/
def Shape.owner : Shape → ModId
  | .version => .version
  | .timer => .timer
  | .http _ => .http
  | .listener => .kafkaListener

/-- What `init_mod` does: it passes before it has touched anything, and otherwise stores a fresh
object of its module. -/
lemma initMod_effect {lib : Lib} {m : ModId} {c : Engine} {cmd : FsCmd Callback}
    {f : Engine → FsCmd Callback → Option (Ret × Option Ptr × Heap)}
    (hf : (shippedMethods lib m).initMod = some f) {r : Ret} {q : Option Ptr} {h : Heap}
    (hcall : f c cmd = some (r, q, h)) :
    (r = .pass → h = c.heap) ∧
      (r = .ok → ∃ o, q = some (c.heap.alloc o).1 ∧ h = (c.heap.alloc o).2 ∧ o.shape.owner = m) := by
  cases m with
  | version =>
    cases hf
    rw [fsModVersionInitMod] at hcall
    split_ifs at hcall
    · cases hcall
      exact ⟨fun _ => rfl, nofun⟩
    · cases hcall
      exact ⟨nofun, fun _ => ⟨_, rfl, rfl, rfl⟩⟩
  | timer =>
    cases hf
    rw [fsModTimerInitMod] at hcall
    split_ifs at hcall
    · cases hcall
      exact ⟨nofun, fun _ => ⟨_, rfl, rfl, rfl⟩⟩
    · cases hcall
      exact ⟨nofun, nofun⟩
  | http =>
    cases hf
    rw [fsModHttpInitMod] at hcall
    split_ifs at hcall
    · cases hcall
      exact ⟨nofun, fun _ => ⟨_, rfl, rfl, rfl⟩⟩
    · cases hcall
      exact ⟨nofun, nofun⟩
  | kafkaListener =>
    cases hf
    rw [fsModKafkaListenerInitMod] at hcall
    split_ifs at hcall
    · cases hcall
      exact ⟨fun _ => rfl, nofun⟩
    · cases hcall
      exact ⟨fun _ => rfl, nofun⟩
    · cases hcall
      exact ⟨nofun, fun _ => ⟨_, rfl, rfl, rfl⟩⟩
  | httpKafka => cases hf
  | httpProxy => cases hf

/-- `init_mod_completed` changes no object. -/
lemma completed_effect {lib : Lib} {m : ModId} {c : Engine} {p : Ptr} {f : Engine → Ptr → Called}
    (hf : (shippedMethods lib m).initModCompleted = some f) {o : Obj}
    (ho : c.heap.get p = some o) (hown : o.shape.owner = m) :
    (f c p).All fun _ h => h.objs = c.heap.objs := by
  cases m with
  | version =>
    cases hf
    exact Called.all_some rfl
  | timer =>
    cases hf
    cases o with
    | timer t =>
      simp only [fsModTimerInitModCompleted, ho]
      exact Called.all_ite (fun _ => Called.all_some rfl) fun _ => Called.all_some rfl
    | version => cases hown
    | http => cases hown
    | listener => cases hown
  | http =>
    cases hf
    cases o with
    | http http =>
      simp only [fsModHttpInitModCompleted, ho]
      cases http.host with
      | none => exact Called.all_none
      | some host =>
        refine Called.all_ite (fun _ => Called.all_some rfl) fun _ => ?_
        refine Called.all_ite (fun _ => Called.all_some rfl) fun _ => ?_
        exact Called.all_ite (fun _ => Called.all_some rfl) fun _ => Called.all_some rfl
    | version => cases hown
    | timer => cases hown
    | listener => cases hown
  | kafkaListener =>
    cases hf
    cases o with
    | listener l =>
      simp only [fsModKafkaListenerInitModCompleted, ho]
      cases l.topic with
      | null => exact Called.all_some rfl
      | wild => exact Called.all_none
      | arr topics =>
        refine Called.all_ite (fun _ => Called.all_some rfl) fun _ => ?_
        refine Called.all_ite (fun _ => Called.all_some rfl) fun _ => ?_
        exact Called.all_ite (fun _ => Called.all_some rfl) fun _ => Called.all_some rfl
    | version => cases hown
    | timer => cases hown
    | http => cases hown
  | httpKafka => cases hf
  | httpProxy => cases hf

end Folksong
