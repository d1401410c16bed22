import Folksong.Http.Route
import Folksong.Mod.TypedRun

/-!
# The routes of an accepted configuration

A publisher keeps a pattern that is no regular expression, as a null pattern, and a proxy block
with one is refused. Every run of sound directives therefore leaves accepted routes only.
-/

namespace Folksong

/-! ### Callbacks -/

/-- The routes of all http blocks. -/
def Heap.RoutesAccepted (compiles : List UInt8 → Bool) (h : Heap) : Prop :=
  ∀ p http, h.get p = some (.http http) → ∀ route ∈ http.routes.toList, route.Accepted compiles

/-- `pcre_compile` succeeds on these patterns. -/
def Lib.Compiles (lib : Lib) (compiles : List UInt8 → Bool) : Prop :=
  ∀ calls pattern, lib.result calls (.pcreCompile pattern) = compiles pattern

section

variable {compiles : List UInt8 → Bool} {lib : Lib} {c : Engine} {p : Ptr} {h : Heap} {http : Http}

/-- A store into an http block. -/
lemma Heap.RoutesAccepted.set (ha : h.RoutesAccepted compiles) {o : Obj} (ho : h.get p = some o)
    {o' : Obj} (ho' : ∀ http, o' = .http http →
      ∀ route ∈ http.routes.toList, route.Accepted compiles) :
    (h.set p o').RoutesAccepted compiles := by
  intro q http hq
  by_cases hqp : q = p
  · subst hqp
    rw [Heap.get_set_self ho] at hq
    exact ho' http (Option.some.inj hq)
  · rw [Heap.get_set_ne h hqp] at hq
    exact ha q http hq

lemma Heap.RoutesAccepted.congr {h' : Heap} (ha : h.RoutesAccepted compiles)
    (hobjs : h'.objs = h.objs) : h'.RoutesAccepted compiles := by
  intro q http hq
  rw [Heap.get_congr hobjs] at hq
  exact ha q http hq

lemma mem_push {routes : FsArr Route} {route route' : Route} :
    route ∈ (routes.push route').toList ↔ route ∈ routes.toList ∨ route = route' := by
  rw [FsArr.push_toList, List.mem_append, List.mem_singleton]

lemma mem_write {routes : FsArr Route} {i : Nat} {route route' : Route}
    (hmem : route ∈ (routes.write i route').toList) : route ∈ routes.toList ∨ route = route' := by
  rw [FsArr.toList, List.reduceOption_mem_iff] at hmem ⊢
  rw [FsArr.write, List.take_set] at hmem
  rcases List.mem_or_eq_of_mem_set hmem with hmem | heq
  · exact .inl hmem
  · exact .inr (Option.some.inj heq)

lemma Http.lastRoute_mem {route : Route} (h : http.lastRoute = some route) :
    route ∈ http.routes.toList := by
  rw [Http.lastRoute] at h
  split_ifs at h with hne
  rw [FsArr.toList, List.reduceOption_mem_iff]
  refine List.mem_of_getElem? (i := http.routes.eleCount - 1) ?_
  rw [List.getElem?_take_of_lt (by omega), Option.join_eq_some_iff.mp h]

/-- The call leaves accepted routes. -/
def Admits (compiles : List UInt8 → Bool) (r : Ret) (h : Heap) : Prop :=
  r = .ok → h.RoutesAccepted compiles

lemma Admits.of_ne {r : Ret} (hr : r ≠ .ok) : Admits compiles r h := fun hok => absurd hok hr

/-- A store that changes the last route keeps its pattern. -/
lemma Admits.setLast (ha : c.heap.RoutesAccepted compiles)
    (ho : c.heap.get p = some (.http http)) {route route' : Route}
    (hlast : http.lastRoute = some route) (hpath : route'.path = route.path)
    (hpathRe : route'.pathRe = route.pathRe) (hkind : route'.kind = route.kind) (r : Ret) :
    Admits compiles r (c.heap.set p (.http (http.setLast route'))) := by
  intro _
  apply ha.set ho
  rintro _ ⟨⟩ x hx
  rcases mem_write hx with hx | rfl
  · exact ha p http ho x hx
  · obtain ⟨hre, hproxy⟩ := ha p http ho _ (Http.lastRoute_mem hlast)
    exact ⟨by rw [hpathRe, hpath, hre], fun h => by rw [hpath]; exact hproxy (hkind ▸ h)⟩

/-- A store that adds a route. -/
lemma Admits.push (ha : c.heap.RoutesAccepted compiles)
    (ho : c.heap.get p = some (.http http)) {h : Heap} (hobjs : h.objs = c.heap.objs)
    {route : Route} {r : Ret} (hroute : r = .ok → route.Accepted compiles) :
    Admits compiles r (h.set p (.http { http with routes := http.routes.push route })) := by
  intro hok
  apply (ha.congr hobjs).set (by rw [Heap.get_congr hobjs, ho])
  rintro _ ⟨⟩ x hx
  rcases mem_push.mp hx with hx | rfl
  · exact ha p http ho x hx
  · exact hroute hok

lemma publisherCmd_admits (ha : c.heap.RoutesAccepted compiles) {k : Callback} {words : Nat}
    {store : Publisher → Engine → Option (Option Publisher)}
    (hstore : ∀ publisher publisher', store publisher c = some (some publisher') →
      publisher'.path = publisher.path ∧ publisher'.pathRe = publisher.pathRe)
    (hp : c.heap.shape p = some (.http (some .publisher))) :
    (publisherCmd k words store lib c p).All (Admits compiles) := by
  obtain ⟨o, ho, hs⟩ := Option.map_eq_some_iff.mp hp
  rw [publisherCmd]
  refine Called.all_ite (fun _ => Called.all_some (.of_ne (by decide))) fun _ => ?_
  refine Called.all_ite (fun _ => Called.all_some (.of_ne (by decide))) fun _ => ?_
  cases o with
  | http http =>
    simp only [Obj.shape, Shape.http.injEq, Option.map_eq_some_iff] at hs
    obtain ⟨route, hlast, hkind⟩ := hs
    cases route with
    | publisher publisher =>
      simp only [ho, hlast]
      cases hres : store publisher c with
      | none => exact Called.all_none
      | some res =>
        cases res with
        | none => exact Called.all_some (.of_ne (by decide))
        | some publisher' =>
          obtain ⟨hpath, hpathRe⟩ := hstore _ _ hres
          have hroute : (Route.publisher publisher').path = (Route.publisher publisher).path :=
            congrArg FsStr.cstr hpath
          exact Called.all_some (.setLast ha ho hlast hroute hpathRe rfl _)
    | proxy => cases hkind
  | version => cases hs
  | timer => cases hs
  | listener => cases hs

lemma publisherField_admits (ha : c.heap.RoutesAccepted compiles) {k : Callback}
    {field : Publisher → StrField} {store : Publisher → StrField → Publisher}
    (hstore : ∀ publisher value, (store publisher value).path = publisher.path ∧
      (store publisher value).pathRe = publisher.pathRe)
    (hp : c.heap.shape p = some (.http (some .publisher))) :
    (publisherField k field store lib c p).All (Admits compiles) := by
  rw [publisherField]
  refine publisherCmd_admits ha (fun publisher publisher' h => ?_) hp
  split_ifs at h with hset
  · simp at h
  · cases hvalue : c.tokens.nth 1 with
    | none => simp [hvalue] at h
    | some value =>
      rw [hvalue] at h
      cases h
      exact hstore publisher _

lemma kafkaBlock_admits (hlib : lib.Compiles compiles) (ha : c.heap.RoutesAccepted compiles)
    (ho : c.heap.get p = some (.http http)) :
    (fsModHttpKafkaBlock lib c p).All (Admits compiles) := by
  rw [fsModHttpKafkaBlock]
  refine Called.all_ite (fun _ => Called.all_some (.of_ne (by decide))) fun _ => ?_
  refine Called.all_ite (fun _ => Called.all_some (.of_ne (by decide))) fun _ => ?_
  simp only [ho]
  cases c.tokens.nth 1 with
  | none => exact Called.all_none
  | some path =>
    refine Called.all_some (Admits.push ha ho ?_ ?_)
    · rfl
    · refine fun _ => ⟨?_, by simp [Route.kind]⟩
      simp only [Route.pathRe, pcreCompile, Heap.callLib, hlib _ path.cstr]
      rfl

lemma proxyBlock_admits (hlib : lib.Compiles compiles) (ha : c.heap.RoutesAccepted compiles)
    (ho : c.heap.get p = some (.http http)) :
    (fsModHttpProxyBlock lib c p).All (Admits compiles) := by
  rw [fsModHttpProxyBlock]
  refine Called.all_ite (fun _ => Called.all_some (.of_ne (by decide))) fun _ => ?_
  refine Called.all_ite (fun _ => Called.all_some (.of_ne (by decide))) fun _ => ?_
  simp only [ho]
  cases c.tokens.nth 1 with
  | none => exact Called.all_none
  | some path =>
    refine Called.all_some (Admits.push ha ho ?_ ?_)
    · rfl
    · refine fun hok => ⟨?_, fun _ => ?_⟩
      · simp only [Route.pathRe, pcreCompile, Heap.callLib, hlib _ path.cstr]
        rfl
      · simp only [pcreCompile, Heap.callLib, hlib _ path.cstr] at hok
        by_contra hno
        have hno' : compiles path.cstr = false := Bool.eq_false_of_not_eq_true hno
        simp [hno'] at hok

lemma passPath_admits (ha : c.heap.RoutesAccepted compiles)
    (hp : c.heap.shape p = some (.http (some .proxy))) :
    (fsModHttpProxyCmdPassPath lib c p).All (Admits compiles) := by
  obtain ⟨o, ho, hs⟩ := Option.map_eq_some_iff.mp hp
  rw [fsModHttpProxyCmdPassPath]
  refine Called.all_ite (fun _ => Called.all_some (.of_ne (by decide))) fun _ => ?_
  refine Called.all_ite (fun _ => Called.all_some (.of_ne (by decide))) fun _ => ?_
  cases o with
  | http http =>
    simp only [Obj.shape, Shape.http.injEq, Option.map_eq_some_iff] at hs
    obtain ⟨route, hlast, hkind⟩ := hs
    cases route with
    | proxy proxy =>
      simp only [ho, hlast]
      refine Called.all_ite (fun _ => Called.all_some (.of_ne (by decide))) fun _ => ?_
      cases c.tokens.nth 1 with
      | none => exact Called.all_none
      | some token =>
        refine Called.all_some (Admits.setLast ha ho hlast ?_ ?_ ?_ _)
        · rfl
        · rfl
        · rfl
    | publisher => cases hkind
  | version => cases hs
  | timer => cases hs
  | listener => cases hs

/-- A call that meets an http object of the type it wants leaves accepted routes. -/
lemma shippedCall_admits (hlib : lib.Compiles compiles) (ha : c.heap.RoutesAccepted compiles)
    {k : Callback} (ho : c.heap.get p = some (.http http))
    (hw : k.wants (.http (http.lastRoute.map Route.kind))) :
    (shippedCall lib k c p).All (Admits compiles) := by
  have hshape : ∀ last, http.lastRoute.map Route.kind = last →
      c.heap.shape p = some (.http last) := by
    rintro _ rfl
    rw [Heap.shape, ho]
    rfl
  have hkept : ∀ http' : Http, http'.routes = http.routes → ∀ r,
      Admits compiles r (c.heap.set p (.http http')) := by
    intro http' hroutes r _
    apply ha.set ho
    rintro _ ⟨⟩
    rw [hroutes]
    exact ha p http ho
  cases k with
  | httpBlock => exact Called.all_some fun _ => ha
  | httpHost =>
    simp only [shippedCall, fsModHttpCmdHost, ho]
    refine Called.all_ite (fun _ => Called.all_some (.of_ne (by decide))) fun _ => ?_
    refine Called.all_ite (fun _ => Called.all_some (.of_ne (by decide))) fun _ => ?_
    cases c.tokens.nth 1 with
    | none => exact Called.all_none
    | some host =>
      refine Called.all_some (hkept _ ?_ _)
      rfl
  | httpPort =>
    simp only [shippedCall, fsModHttpCmdPort, ho]
    refine Called.all_ite (fun _ => Called.all_some (.of_ne (by decide))) fun _ => ?_
    refine Called.all_ite (fun _ => Called.all_some (.of_ne (by decide))) fun _ => ?_
    cases tokenText c 1 with
    | none => exact Called.all_none
    | some text =>
      refine Called.all_some (hkept _ ?_ _)
      rfl
  | httpKafkaBlock => exact kafkaBlock_admits hlib ha ho
  | httpKafkaConfig =>
    rw [shippedCall, fsModHttpKafkaCmdConfig]
    refine publisherCmd_admits ha (fun publisher publisher' h => ?_)
      (hshape _ (Shape.http.inj hw))
    cases hkey : c.tokens.nth 1 <;> cases hvalue : c.tokens.nth 2 <;>
      rw [hkey, hvalue] at h <;> cases h
    exact ⟨rfl, rfl⟩
  | httpKafkaTopicParam =>
    rw [shippedCall, fsModHttpKafkaCmdTopicParam]
    exact publisherField_admits ha (fun _ _ => ⟨rfl, rfl⟩) (hshape _ (Shape.http.inj hw))
  | httpKafkaDefaultTopic =>
    rw [shippedCall, fsModHttpKafkaCmdDefaultTopic]
    exact publisherField_admits ha (fun _ _ => ⟨rfl, rfl⟩) (hshape _ (Shape.http.inj hw))
  | httpKafkaKeyParam =>
    rw [shippedCall, fsModHttpKafkaCmdKeyParam]
    exact publisherField_admits ha (fun _ _ => ⟨rfl, rfl⟩) (hshape _ (Shape.http.inj hw))
  | httpKafkaDefaultKey =>
    rw [shippedCall, fsModHttpKafkaCmdDefaultKey]
    exact publisherField_admits ha (fun _ _ => ⟨rfl, rfl⟩) (hshape _ (Shape.http.inj hw))
  | httpProxyBlock => exact proxyBlock_admits hlib ha ho
  | httpProxyPassPath => exact passPath_admits ha (hshape _ (Shape.http.inj hw))
  | timerBlock => exact Called.all_some fun _ => ha
  | kafkaListenerBlock =>
    refine Called.all_ite (fun _ => Called.all_some (.of_ne (by decide))) fun _ => ?_
    exact Called.all_some fun _ => ha
  | _ => cases hw

/-- A store to an object of another type. -/
lemma Effect.routesAccepted {k : Callback} (he : Effect k c p .ok h)
    (ha : c.heap.RoutesAccepted compiles) {o : Obj} (ho : c.heap.get p = some o)
    (hother : ∀ last, o.shape ≠ .http last) : h.RoutesAccepted compiles := by
  intro q http hq
  by_cases hqp : q = p
  · subst hqp
    have hshape : h.shape q = some (k.leaves o.shape) := by
      rw [(he.ok rfl).2.2, Function.update_self, Heap.shape, ho, Option.map_some, Option.map_some]
    rw [Heap.shape, hq, Option.map_some, Option.some.injEq] at hshape
    cases hs : o.shape with
    | http last => exact absurd hs (hother last)
    | version | timer | listener =>
      rw [hs] at hshape
      cases k <;> cases hshape
  · rw [he.frame rfl q hqp] at hq
    exact ha q http hq

/-- A call that does no harm to its object leaves accepted routes. -/
lemma call_routesAccepted (hlib : lib.Compiles compiles) (ha : c.heap.RoutesAccepted compiles)
    {k : Callback} (hharm : Harmless k c p) (hcall : shippedCall lib k c p = some (.ok, h)) :
    h.RoutesAccepted compiles := by
  have he : Effect k c p .ok h := call_effect k hharm _ _ hcall
  obtain ⟨o, ho, hk⟩ := hharm (he.ok rfl).1
  cases o with
  | http http =>
    by_cases hart : k = .versionArt
    · subst hart
      simp only [shippedCall, fsModVersionArt, ho] at hcall
      cases hcall
      exact ha
    · have hwants : k.wants (.http (http.lastRoute.map Route.kind)) := by
        cases k <;> first | exact hk | exact absurd rfl hart
      exact shippedCall_admits hlib ha ho hwants _ _ hcall rfl
  | version | timer | listener => exact he.routesAccepted ha ho (by simp [Obj.shape])

/-- A fresh object has no routes. -/
lemma Heap.RoutesAccepted.alloc (ha : h.RoutesAccepted compiles) {o : Obj}
    (ho : ∀ http, o = .http http → http.routes.toList = []) :
    (h.alloc o).2.RoutesAccepted compiles := by
  intro q http hq
  by_cases hqp : q = (h.alloc o).1
  · subst hqp
    have hself : (h.alloc o).2.get (h.alloc o).1 = some o := by simp [Heap.get, Heap.alloc]
    rw [ho http (Option.some.inj (hself.symm.trans hq))]
    exact List.forall_mem_nil _
  · rw [Heap.get_alloc_ne h o hqp] at hq
    exact ha q http hq

lemma initMod_routesAccepted {m : ModId} {cmd : FsCmd Callback}
    {f : Engine → FsCmd Callback → Option (Ret × Option Ptr × Heap)}
    (hf : (shippedMethods lib m).initMod = some f) {q : Option Ptr}
    (hcall : f c cmd = some (.ok, q, h)) (ha : c.heap.RoutesAccepted compiles) :
    h.RoutesAccepted compiles := by
  cases m with
  | version =>
    cases hf
    rw [fsModVersionInitMod] at hcall
    split_ifs at hcall <;> cases hcall
    exact ha.alloc fun _ heq => by cases heq
  | timer =>
    cases hf
    rw [fsModTimerInitMod] at hcall
    split_ifs at hcall <;> cases hcall
    exact ha.alloc fun _ heq => by cases heq
  | http =>
    cases hf
    rw [fsModHttpInitMod] at hcall
    split_ifs at hcall <;> cases hcall
    apply ha.alloc
    rintro _ ⟨⟩
    rfl
  | kafkaListener =>
    cases hf
    rw [fsModKafkaListenerInitMod] at hcall
    split_ifs at hcall <;> cases hcall
    exact ha.alloc fun _ heq => by cases heq
  | httpKafka => cases hf
  | httpProxy => cases hf

end

/-! ### Runs -/

section

variable {compiles : List UInt8 → Bool} {mods : List (FsMod ModId Callback)}
  (hmods : ∀ m ∈ mods, m ∈ shippedMods) {lib : Lib} (hlib : lib.Compiles compiles) {junk : Junk}
  {c : Engine} {bs : List (Opened ModId Callback)} {st : Status}

lemma Entry.routesAccepted {m : ModId} {cmd : FsCmd Callback} {p : Ptr} {first : Bool}
    {c₁ : Engine} (hE : Entry (shippedEnv mods lib junk) c bs m cmd p first c₁)
    (ha : c.heap.RoutesAccepted compiles) : c₁.heap.RoutesAccepted compiles := by
  cases hE with
  | child _ _ _ hheap => rwa [hheap]
  | own _ hinit _ _ hheap =>
    rw [hheap]
    cases hinit with
    | absent => exact ha
    | stored hf hcall => exact initMod_routesAccepted hf hcall ha
    | unset hf hcall => exact initMod_routesAccepted hf hcall ha

include hmods hlib

/-- An accepted directive leaves accepted routes. -/
lemma Accepted.routesAccepted (hI : c.Inv (shippedEnv mods lib junk) bs)
    (ht : TypedStack c.heap bs) (hplace : c.pathInPlace (shippedEnv mods lib junk) st)
    {c' : Engine} {bs' : List (Opened ModId Callback)}
    (h : Accepted (shippedEnv mods lib junk) c bs st c' bs')
    (ha : c.heap.RoutesAccepted compiles) : c'.heap.RoutesAccepted compiles := by
  cases h with
  | param hc hp hb hcall =>
    exact call_routesAccepted hlib ha (param_harmless hmods hI ht hplace hc hp hb) hcall
  | @block m cmd p first c₁ h hc hblock hE hcall =>
    have hp : cmd.isParam = false := by simp [FsCmd.isParam, hblock]
    exact call_routesAccepted hlib (hE.routesAccepted ha) (hE.suited hmods ht hc hp).harmless hcall
  | single hc hblock hchild => exact (hc.not_single hmods hblock hchild).elim
  | closeChild => exact ha
  | @closeOwn b bs' c₁ hbs hch hcomp =>
    subst hbs
    have hobjs : c₁.heap.objs = c.heap.objs := ht.completed_objs hch hcomp
    exact ha.congr hobjs

lemma handle_routesAccepted (hI : c.Inv (shippedEnv mods lib junk) bs) (ht : TypedStack c.heap bs)
    (hroom : c.pushes (shippedEnv mods lib junk) st → c.Room)
    (hplace : c.pathInPlace (shippedEnv mods lib junk) st)
    (ha : c.heap.RoutesAccepted compiles) {c' : Engine}
    (h : fsConfHandle (shippedEnv mods lib junk) c st = .ok c') :
    c'.heap.RoutesAccepted compiles := by
  obtain ⟨c₁, bs', hall, hacc⟩ := handle_cases hI hroom h
  obtain ⟨hI₁, hheap, hplace₁⟩ := PassedAll.untouched hmods hI ht hplace hall
  exact hacc.routesAccepted hmods hlib hI₁ (hheap ▸ ht) hplace₁ (hheap ▸ ha)

/-- Every run of sound directives leaves accepted routes, whatever the order of the modules. -/
theorem routesAccepted_of_run {io : ReadOutcome} {mode : ParseMode} {f : FsFile}
    {tokens : FsArr FsStr} {heap : Heap} {s : FsFile × Engine} {ls : List Taking}
    (hrun : Transition.Run (Transition.Guarded (Sound (shippedEnv mods lib junk))
      (ParseStep (shippedEnv mods lib junk) io mode)) (f, Conf.start tokens heap) ls s)
    (ha : heap.RoutesAccepted compiles) : s.2.heap.RoutesAccepted compiles := by
  refine (hrun.invariant_guarded (I := fun s => ∃ bs, s.2.Inv (shippedEnv mods lib junk) bs ∧
    TypedStack s.2.heap bs ∧ s.2.heap.RoutesAccepted compiles) ?_
    ⟨[], inv_start _ tokens heap, .nil, ha⟩).elim fun _ h => h.2.2
  rintro s l s' ⟨bs, hI, ht, ha⟩ ⟨hroom, hplace⟩ hstep
  have hhandled := hstep.handled.2.2
  obtain ⟨bs', hI', ht'⟩ := handle_typed hmods (hI.take l) ht hroom hplace hhandled
  exact ⟨bs', hI', ht', handle_routesAccepted hmods hlib (hI.take l) ht hroom hplace ha hhandled⟩

end

end Folksong
