import Folksong.Mod.Registry

/-!
# Start-up (`fs_gmod_inited`)

When a configuration has been accepted, every module in use is handed the list of its contexts. No
`inited` function looks at the result of a call it makes; `fs_mod_http_inited` and
`fs_mod_kafka_listener_inited` store the loop behind their own loop, in the context it ended with.
-/

namespace Folksong

/-- `FS_DEFAULT_BACKLOG`. -/
def fsDefaultBacklog : Nat := 128

/-- A call made at start-up, with the context it is made for. -/
inductive StartCall where
  | printf (welcome : List UInt8)
  | uvTimerInit (p : Ptr)
  | uvTimerStart (p : Ptr) (timeout rep : Nat)
  | uvListen (p : Ptr) (backlog : Nat)
  | rdKafkaQueueGetConsumer (p : Ptr)
  | pipe (p : Ptr)
  | rdKafkaQueueIoEventEnable (p : Ptr)
  | uvPollInit (p : Ptr)
  | uvPollStart (p : Ptr)
deriving DecidableEq, Repr

/-- The calls so far, and the field `loop` of the contexts; `none` has not been written. -/
structure Startup where
  calls : List StartCall
  loop : Ptr → Option Ptr

namespace Startup

/-- `fs_pool_alloc` leaves the field as it finds it. -/
def init : Startup := ⟨[], fun _ => none⟩

def call (s : Startup) (calls : List StartCall) : Startup := { s with calls := s.calls ++ calls }

/-- `->loop = fs_run_loop(run)`. -/
def setLoop (s : Startup) (p : Ptr) : Startup :=
  { s with loop := Function.update s.loop p (some .loop) }

end Startup

/-- The loop over `ctxs`: the calls of its body, which has no defined behaviour where a slot has
not been written or the object is of another type. -/
def eachCtx (body : Ptr → Option (List StartCall)) : List (Option Ptr) → Startup → Option Startup
  | [], s => some s
  | none :: _, _ => none
  | some p :: ctxs, s =>
    match body p with
    | none => none
    | some calls => eachCtx body ctxs (s.call calls)

/-- The store behind the loop, through the variable the loop has left. -/
def storeLoop (ctxs : List (Option Ptr)) (s : Startup) : Option Startup :=
  ctxs.getLast?.join.map s.setLoop

/-- `fs_mod_version_inited`. -/
def fsModVersionInited (c : Engine) (ctxs : List (Option Ptr)) (s : Startup) : Option Startup :=
  match ctxs.head?.join with
  | none => none
  | some p =>
    match c.heap.get p with
    | some (.version (some welcome)) => some (s.call [.printf welcome])
    | _ => none

/-- `fs_mod_timer_inited`, as far as start-up goes. -/
def fsModTimerInitedCalls (c : Engine) : List (Option Ptr) → Startup → Option Startup :=
  eachCtx fun p =>
    match c.heap.get p with
    | some (.timer t) => some [.uvTimerInit p, .uvTimerStart p t.timeout t.rep]
    | _ => none

/-- `fs_mod_http_inited`. -/
def fsModHttpInited (c : Engine) (ctxs : List (Option Ptr)) (s : Startup) : Option Startup :=
  (eachCtx (fun p =>
    match c.heap.get p with
    | some (.http _) => some [.uvListen p fsDefaultBacklog]
    | _ => none) ctxs s).bind (storeLoop ctxs)

/-- What is called for a listener. -/
def listenerCalls (p : Ptr) : List StartCall :=
  [.rdKafkaQueueGetConsumer p, .pipe p, .rdKafkaQueueIoEventEnable p, .uvPollInit p, .uvPollStart p]

/-- `fs_mod_kafka_listener_inited`. -/
def fsModKafkaListenerInited (c : Engine) (ctxs : List (Option Ptr)) (s : Startup) :
    Option Startup :=
  (eachCtx (fun p =>
    match c.heap.get p with
    | some (.listener _) => some (listenerCalls p)
    | _ => none) ctxs s).bind (storeLoop ctxs)

/-- `fs_mod_inited`; the pointer of the route modules is null. -/
def shippedInited (c : Engine) : ModId → Option (List (Option Ptr) → Startup → Option Startup)
  | .version => some (fsModVersionInited c)
  | .timer => some (fsModTimerInitedCalls c)
  | .http => some (fsModHttpInited c)
  | .httpKafka => none
  | .httpProxy => none
  | .kafkaListener => some (fsModKafkaListenerInited c)

/-- One turn of the loop over the modules. -/
def initedTurn (c : Engine) (m : ModId) (s : Startup) : Option Startup :=
  if c.used m then
    match shippedInited c m, c.ctxs m with
    | some inited, .arr a => inited a.contents s
    | _, _ => none
  else some s

/-- `fs_gmod_inited`. -/
def fsGmodInited (mods : List (FsMod ModId Callback)) (c : Engine) : Option Startup :=
  mods.foldlM (fun s m => initedTurn c m.id s) .init

/-! ### The contexts of a module -/

/-- The module is in use, and its contexts are these: objects of the module, each listed once. -/
structure Conf.Lists (c : Engine) (m : ModId) (ps : List Ptr) : Prop where
  used : c.used m = true
  ctxs : ∃ a, c.ctxs m = .arr a ∧ a.contents = ps.map some
  typed : ∀ p ∈ ps, ∃ s, c.heap.shape p = some s ∧ s.owner = m
  nodup : ps.Nodup

section

variable {c : Engine} {m : ModId} {ps : List Ptr} {ctxs : List (Option Ptr)} {s s' : Startup}
  {p : Ptr}

/-- The loop over the contexts makes the calls of each of them, and stores nothing. -/
lemma eachCtx_calls {body : Ptr → Option (List StartCall)} (h : eachCtx body ctxs s = some s') :
    s'.loop = s.loop ∧ ∀ call, call ∈ s'.calls ↔
      call ∈ s.calls ∨ ∃ p calls, some p ∈ ctxs ∧ body p = some calls ∧ call ∈ calls := by
  induction ctxs generalizing s with
  | nil =>
    obtain rfl := Option.some.inj h
    exact ⟨rfl, by simp⟩
  | cons ctx ctxs ih =>
    cases ctx with
    | none => cases h
    | some q =>
      rw [eachCtx] at h
      cases hbody : body q with
      | none =>
        rw [hbody] at h
        cases h
      | some calls =>
        rw [hbody] at h
        obtain ⟨hloop, hcalls⟩ := ih h
        refine ⟨hloop, fun call => ?_⟩
        rw [hcalls]
        simp [Startup.call, or_assoc, hbody, or_and_right, exists_or]

lemma storeLoop_eq (h : storeLoop ctxs s = some s') :
    ∃ p, ctxs.getLast?.join = some p ∧ s' = s.setLoop p := by
  obtain ⟨p, hp, rfl⟩ := Option.map_eq_some_iff.mp h
  exact ⟨p, hp, rfl⟩

/-- The context in which a module stores the loop. -/
def storedCtx (m : ModId) (ctxs : List (Option Ptr)) : Option Ptr :=
  match m with
  | .http | .kafkaListener => ctxs.getLast?.join
  | _ => none

/-- What the `inited` function of a module leaves of the other contexts. -/
lemma inited_frame {inited : List (Option Ptr) → Startup → Option Startup}
    (hinited : shippedInited c m = some inited) (h : inited ctxs s = some s') :
    s.calls ⊆ s'.calls ∧
      ∀ p, s'.loop p = some .loop ↔ storedCtx m ctxs = some p ∨ s.loop p = some .loop := by
  have hstore : ∀ {body : Ptr → Option (List StartCall)},
      (eachCtx body ctxs s).bind (storeLoop ctxs) = some s' → s.calls ⊆ s'.calls ∧
        ∀ p, s'.loop p = some .loop ↔
          ctxs.getLast?.join = some p ∨ s.loop p = some .loop := by
    intro body h
    obtain ⟨s₁, heach, hstore⟩ := Option.bind_eq_some_iff.mp h
    obtain ⟨hloop, hcalls⟩ := eachCtx_calls heach
    obtain ⟨q, hq, rfl⟩ := storeLoop_eq hstore
    refine ⟨fun call hcall => (hcalls call).mpr (.inl hcall), fun p => ?_⟩
    change Function.update s₁.loop q (some .loop) p = _ ↔ _
    rw [hloop, Function.update_apply, hq, Option.some.injEq, eq_comm (a := q)]
    split_ifs with heq <;> simp [heq]
  cases m with
  | version =>
    cases hinited
    rw [fsModVersionInited] at h
    cases hhead : ctxs.head?.join with
    | none =>
      rw [hhead] at h
      cases h
    | some p =>
      rw [hhead] at h
      dsimp only at h
      split at h
      · cases h
        exact ⟨List.subset_append_left _ _, fun _ => by simp [storedCtx, Startup.call]⟩
      · cases h
  | timer =>
    cases hinited
    obtain ⟨hloop, hcalls⟩ := eachCtx_calls h
    exact ⟨fun call hcall => (hcalls call).mpr (.inl hcall), fun p => by simp [storedCtx, hloop]⟩
  | http =>
    cases hinited
    exact hstore h
  | kafkaListener =>
    cases hinited
    exact hstore h
  | httpKafka => cases hinited
  | httpProxy => cases hinited

/-- The turn of one module. -/
lemma initedTurn_frame (h : initedTurn c m s = some s') :
    s.calls ⊆ s'.calls ∧ ∀ p, s'.loop p = some .loop ↔
      (c.used m ∧ ∃ a, c.ctxs m = .arr a ∧ storedCtx m a.contents = some p) ∨
        s.loop p = some .loop := by
  rw [initedTurn] at h
  split_ifs at h with hused
  · cases hinited : shippedInited c m with
    | none =>
      rw [hinited] at h
      cases h
    | some inited =>
      rw [hinited] at h
      cases hctxs : c.ctxs m with
      | arr a =>
        rw [hctxs] at h
        simpa [hused, hctxs] using inited_frame hinited h
      | null =>
        rw [hctxs] at h
        cases h
      | released =>
        rw [hctxs] at h
        cases h
  · obtain rfl := Option.some.inj h
    exact ⟨List.Subset.refl _, fun p => by simp [hused]⟩

/-- All modules: no call is taken back, and the loop is stored where some module stores it. -/
lemma foldlM_initedTurn {mods : List (FsMod ModId Callback)}
    (h : mods.foldlM (fun s m => initedTurn c m.id s) s = some s') :
    s.calls ⊆ s'.calls ∧ ∀ p, s'.loop p = some .loop ↔
      (∃ m ∈ mods, c.used m.id ∧ ∃ a, c.ctxs m.id = .arr a ∧
        storedCtx m.id a.contents = some p) ∨ s.loop p = some .loop := by
  induction mods generalizing s with
  | nil =>
    obtain rfl := Option.some.inj h
    exact ⟨List.Subset.refl _, fun p => by simp⟩
  | cons m mods ih =>
    rw [List.foldlM_cons] at h
    obtain ⟨s₁, hturn, hrest⟩ := Option.bind_eq_some_iff.mp h
    obtain ⟨hcalls₁, hloop₁⟩ := initedTurn_frame hturn
    obtain ⟨hcalls, hloop⟩ := ih hrest
    refine ⟨List.Subset.trans hcalls₁ hcalls, fun p => ?_⟩
    rw [hloop, hloop₁, List.exists_mem_cons_iff]
    exact or_left_comm.trans or_assoc.symm

/-! ### The http blocks and the listeners -/

lemma Conf.Lists.storedCtx (h : c.Lists m ps) (hm : m = .http ∨ m = .kafkaListener) {p : Ptr} :
    (∃ a, c.ctxs m = .arr a ∧ storedCtx m a.contents = some p) ↔ ps.getLast? = some p := by
  obtain ⟨a, ha, hcontents⟩ := h.ctxs
  have hlast : Folksong.storedCtx m (ps.map some) = ps.getLast? := by
    have hjoin : (ps.map some).getLast?.join = ps.getLast? := by
      rw [List.getLast?_map]
      cases ps.getLast? <;> rfl
    rcases hm with rfl | rfl <;> exact hjoin
  rw [ha]
  simp [hcontents, hlast]

/-- What is called for a context of these modules. -/
def ctxCalls (m : ModId) (p : Ptr) : List StartCall :=
  match m with
  | .http => [.uvListen p fsDefaultBacklog]
  | .kafkaListener => listenerCalls p
  | _ => []

/-- The calls are made for every context. -/
lemma Conf.Lists.called (h : c.Lists m ps) (hm : m = .http ∨ m = .kafkaListener)
    (hturn : initedTurn c m s = some s') : ∀ p ∈ ps, ctxCalls m p ⊆ s'.calls := by
  obtain ⟨a, ha, hcontents⟩ := h.ctxs
  have hobj : ∀ p ∈ ps, ∃ o, c.heap.get p = some o ∧ o.shape.owner = m := by
    intro p hp
    obtain ⟨shape, hshape, howner⟩ := h.typed p hp
    obtain ⟨o, ho, rfl⟩ := Heap.get_of_shape hshape
    exact ⟨o, ho, howner⟩
  have hmem : ∀ {body : Ptr → Option (List StartCall)},
      (∀ p ∈ ps, body p = some (ctxCalls m p)) →
      (eachCtx body (ps.map some) s).bind (storeLoop (ps.map some)) = some s' →
        ∀ p ∈ ps, ctxCalls m p ⊆ s'.calls := by
    intro body hbody hturn p hp call hcall
    obtain ⟨s₁, heach, hstore⟩ := Option.bind_eq_some_iff.mp hturn
    obtain ⟨q, -, rfl⟩ := storeLoop_eq hstore
    refine ((eachCtx_calls heach).2 call).mpr (.inr ⟨p, ctxCalls m p, ?_, hbody p hp, hcall⟩)
    exact List.mem_map_of_mem hp
  rw [initedTurn, if_pos h.used, ha] at hturn
  rcases hm with rfl | rfl
  · change fsModHttpInited c a.contents s = some s' at hturn
    rw [hcontents] at hturn
    refine hmem (fun p hp => ?_) hturn
    obtain ⟨o, ho, howner⟩ := hobj p hp
    cases o with
    | http http => rw [ho]; rfl
    | version => cases howner
    | timer => cases howner
    | listener => cases howner
  · change fsModKafkaListenerInited c a.contents s = some s' at hturn
    rw [hcontents] at hturn
    refine hmem (fun p hp => ?_) hturn
    obtain ⟨o, ho, howner⟩ := hobj p hp
    cases o with
    | listener l => rw [ho]; rfl
    | version => cases howner
    | timer => cases howner
    | http => cases howner

/-- A module in its place among the others. -/
lemma fsGmodInited_split {mods : List (FsMod ModId Callback)} (h : fsGmodInited mods c = some s')
    {mod : FsMod ModId Callback} (hmod : mod ∈ mods) :
    ∃ s₁ s₂, initedTurn c mod.id s₁ = some s₂ ∧ s₂.calls ⊆ s'.calls := by
  obtain ⟨before, behind, rfl⟩ := List.append_of_mem hmod
  rw [fsGmodInited, List.foldlM_append] at h
  obtain ⟨s₁, -, hrest⟩ := Option.bind_eq_some_iff.mp h
  rw [List.foldlM_cons] at hrest
  obtain ⟨s₂, hturn, hrest⟩ := Option.bind_eq_some_iff.mp hrest
  exact ⟨s₁, s₂, hturn, (foldlM_initedTurn hrest).1⟩

/-- The loop is stored in one context of each of the two modules. -/
lemma loop_iff {mods : List (FsMod ModId Callback)} (hmods : mods.Perm shippedMods)
    (h : fsGmodInited mods c = some s') {hs ks : List Ptr} (hhttp : c.Lists .http hs)
    (hkafka : c.Lists .kafkaListener ks) (p : Ptr) :
    s'.loop p = some .loop ↔ hs.getLast? = some p ∨ ks.getLast? = some p := by
  rw [(foldlM_initedTurn h).2 p, ← hhttp.storedCtx (.inl rfl), ← hkafka.storedCtx (.inr rfl)]
  have hinit : ¬ Startup.init.loop p = some .loop := by simp [Startup.init]
  rw [or_iff_left hinit]
  constructor
  · rintro ⟨m, hm, -, a, ha, hstored⟩
    have hid : m.id = .http ∨ m.id = .kafkaListener := by
      cases hid : m.id <;> rw [hid] at hstored <;> first | exact .inl rfl | exact .inr rfl
                                                         | cases hstored
    rcases hid with hid | hid
    · exact .inl ⟨a, hid ▸ ha, hid ▸ hstored⟩
    · exact .inr ⟨a, hid ▸ ha, hid ▸ hstored⟩
  · rintro (hstored | hstored)
    · exact ⟨fsModHttp, hmods.mem_iff.mpr (by simp [shippedMods]), hhttp.used, hstored⟩
    · exact ⟨fsModKafkaListener, hmods.mem_iff.mpr (by simp [shippedMods]), hkafka.used, hstored⟩

/-- Contexts of different modules are different. -/
lemma Conf.Lists.disjoint {m' : ModId} {ps' : List Ptr} (h : c.Lists m ps) (h' : c.Lists m' ps')
    (hne : m ≠ m') (hp : p ∈ ps) (hp' : p ∈ ps') : False := by
  obtain ⟨s, hs, howner⟩ := h.typed p hp
  obtain ⟨s', hs', howner'⟩ := h'.typed p hp'
  rw [hs, Option.some.injEq] at hs'
  subst hs'
  exact hne (howner.symm.trans howner')

end

/-! ### The contexts after a run -/

/-- An object stays in its place, and one of its module. -/
def Heap.Keeps (h h' : Heap) : Prop :=
  ∀ p s, h.shape p = some s → ∃ s', h'.shape p = some s' ∧ s'.owner = s.owner

/-- The contexts of the own blocks are different objects of their modules, and no slot has been
skipped in a list. -/
structure Owned (c : Engine) : Prop where
  filled : ∀ m a, c.ctxs m = .arr a → none ∉ a.contents
  typed : ∀ m, ∀ p ∈ ownCtxs m c.log, ∃ s, c.heap.shape p = some s ∧ s.owner = m
  nodup : ∀ m, (ownCtxs m c.log).Nodup

lemma Heap.Keeps.of_shape {h h' : Heap} (heq : h'.shape = h.shape) : h.Keeps h' :=
  fun _ s hs => ⟨s, by rw [heq, hs], rfl⟩

lemma Callback.leaves_owner (k : Callback) (s : Shape) : (k.leaves s).owner = s.owner := by
  cases k <;> cases s <;> rfl

lemma Effect.keeps {k : Callback} {c : Engine} {p : Ptr} {h : Heap} (he : Effect k c p .ok h) :
    c.heap.Keeps h := by
  intro q s hs
  rw [(he.ok rfl).2.2]
  by_cases hq : q = p
  · subst hq
    exact ⟨k.leaves s, by rw [Function.update_self, hs, Option.map_some], k.leaves_owner s⟩
  · exact ⟨s, by rw [Function.update_of_ne hq, hs], rfl⟩

namespace Owned

variable {c c' : Engine}

lemma congr (h : Owned c) (hctxs : c'.ctxs = c.ctxs)
    (hlog : ∀ m, ownCtxs m c'.log = ownCtxs m c.log) (hheap : c.heap.Keeps c'.heap) :
    Owned c' := by
  refine ⟨?_, ?_, ?_⟩
  · intro m a ha
    exact h.filled m a (hctxs ▸ ha)
  · intro m p hp
    rw [hlog] at hp
    obtain ⟨s, hs, rfl⟩ := h.typed m p hp
    exact hheap p s hs
  · intro m
    rw [hlog]
    exact h.nodup m

/-- An own block has been accepted, with an object that did not exist before. -/
lemma entered (h : Owned c) {m : ModId} {p : Ptr} {a : FsArr Ptr}
    (ha : (if c.used m then c.ctxs m else .arr (fsAllocArr Ptr 1 Nat.zero_lt_one)) = .arr a)
    (hctxs : c'.ctxs = Function.update c.ctxs m (.arr (a.push p)))
    (hlog : ∀ m', ownCtxs m' c'.log = ownCtxs m' c.log ++ if m = m' then [p] else [])
    (hnew : c.heap.shape p = none) {s : Shape} (hs : c'.heap.shape p = some s)
    (howner : s.owner = m) (hheap : c.heap.Keeps c'.heap) : Owned c' := by
  have hfilled : none ∉ a.contents := by
    split_ifs at ha with hused
    · exact h.filled m a ha
    · cases ha
      simp [FsArr.contents, fsAllocArr]
  have hnotMem : ∀ m', p ∉ ownCtxs m' c.log := by
    intro m' hp
    obtain ⟨s, hs, -⟩ := h.typed m' p hp
    rw [hnew] at hs
    cases hs
  refine ⟨?_, ?_, ?_⟩
  · intro m' a' ha'
    rw [hctxs] at ha'
    by_cases hm' : m' = m
    · subst hm'
      rw [Function.update_self, Ctxs.arr.injEq] at ha'
      rw [← ha', FsArr.push_contents]
      simp [hfilled]
    · rw [Function.update_of_ne hm'] at ha'
      exact h.filled m' a' ha'
  · intro m' q hq
    rw [hlog, List.mem_append] at hq
    rcases hq with hq | hq
    · obtain ⟨s', hs', rfl⟩ := h.typed m' q hq
      exact hheap q s' hs'
    · split_ifs at hq with hm'
      · obtain rfl := List.mem_singleton.mp hq
        exact ⟨s, hs, howner.trans hm'⟩
      · cases hq
  · intro m'
    rw [hlog]
    split_ifs
    · rw [← List.concat_eq_append]
      exact (h.nodup m').concat (hnotMem m')
    · rw [List.append_nil]
      exact h.nodup m'

end Owned

section

variable {mods : List (FsMod ModId Callback)} (hmods : ∀ m ∈ mods, m ∈ shippedMods) {lib : Lib}
  {junk : Junk} {c : Engine} {bs : List (Opened ModId Callback)} {st : Status}

include hmods

/-- Entering a block adds at most an object, the context of an own block. -/
lemma Entry.keeps {m : ModId} {cmd : FsCmd Callback}
    (hc : Tried (shippedEnv mods lib junk) c st m cmd) {p : Ptr} {first : Bool} {c₁ : Engine}
    (hE : Entry (shippedEnv mods lib junk) c bs m cmd p first c₁) :
    c.heap.Keeps c₁.heap ∧ (cmd.child = false → c.heap.shape p = none ∧
      ∃ s, c₁.heap.shape p = some s ∧ s.owner = m) := by
  cases hE with
  | child hch _ _ hheap =>
    refine ⟨.of_shape (by rw [hheap]), fun h => ?_⟩
    rw [hch] at h
    cases h
  | own hch hinit _ _ hheap =>
    obtain ⟨o, rfl, rfl, ho⟩ := hinit.alloc (hc.shipped hmods) hch
    have hnone : c.heap.shape (c.heap.alloc o).1 = none := by
      rw [Heap.shape, Heap.get_alloc_none, Option.map_none]
    have hshape := Heap.shape_alloc c.heap o
    rw [hheap]
    refine ⟨fun q s hs => ⟨s, ?_, rfl⟩, fun _ => ⟨hnone, o.shape, ?_, ho⟩⟩
    · have hne : q ≠ (c.heap.alloc o).1 := by
        rintro rfl
        rw [hnone] at hs
        cases hs
      rw [hshape, Function.update_of_ne hne, hs]
    · rw [hshape, Function.update_self]

/-- An accepted directive keeps the contexts of the modules. -/
lemma Accepted.owned (hI : c.Inv (shippedEnv mods lib junk) bs) (ht : TypedStack c.heap bs)
    (hplace : c.pathInPlace (shippedEnv mods lib junk) st) (ho : Owned c) {c' : Engine}
    {bs' : List (Opened ModId Callback)}
    (h : Accepted (shippedEnv mods lib junk) c bs st c' bs') : Owned c' := by
  have hregistry := h.registry hmods
  cases h with
  | @param m cmd b h hc hp hb hcall =>
    refine ho.congr rfl (fun m' => ?_) (param_effect hmods hI ht hplace hc hp hb _ _ hcall).keeps
    rw [Conf.emit, ownCtxs_append]
    exact List.append_nil _
  | @block m cmd p first c₁ h hc hblock hE hcall =>
    have hp : cmd.isParam = false := by simp [FsCmd.isParam, hblock]
    obtain ⟨hkeeps, hnew⟩ := hE.keeps hmods hc
    have hcalled := (hE.effect hmods ht hc hp _ _ hcall).keeps
    have hheap : c.heap.Keeps h := by
      intro q s hs
      obtain ⟨s₁, hs₁, howner₁⟩ := hkeeps q s hs
      obtain ⟨s₂, hs₂, howner₂⟩ := hcalled q s₁ hs₁
      exact ⟨s₂, hs₂, howner₂.trans howner₁⟩
    rcases hregistry with ⟨-, hctxs, hlog⟩ | ⟨b, hb, hch, a, ha, -, -, hctxs, hlog⟩
    · exact ho.congr hctxs hlog hheap
    · obtain rfl := Option.some.inj hb
      obtain ⟨hnone, s, hs, howner⟩ := hnew hch
      obtain ⟨s', hs', howner'⟩ := hcalled p s hs
      exact ho.entered ha hctxs hlog hnone hs' (howner'.trans howner) hheap
  | single hc hblock hchild => exact (hc.not_single hmods hblock hchild).elim
  | closeChild =>
    refine ho.congr rfl (fun m' => ?_) fun _ s hs => ⟨s, hs, rfl⟩
    rw [Conf.emit, ownCtxs_append]
    exact List.append_nil _
  | @closeOwn b bs' c₁ hbs hch hcomp =>
    subst hbs
    have hkept : c₁.heap.shape = c.heap.shape :=
      Heap.shape_congr (ht.completed_objs hch hcomp)
    obtain ⟨heap, rfl⟩ := runCompleted_eq hcomp
    refine ho.congr rfl (fun m' => ?_) (.of_shape hkept)
    rw [Conf.emit, ownCtxs_append]
    apply (List.append_nil _).trans
    rw [Conf.stPop, ownCtxs_append, ownCtxs_completion, List.append_nil]

lemma PassedAll.owned (hI : c.Inv (shippedEnv mods lib junk) bs) (ht : TypedStack c.heap bs)
    (hpath : c.pathInPlace (shippedEnv mods lib junk) st) (hr : Registered c) (ho : Owned c)
    {c₁ : Engine} (h : PassedAll (shippedEnv mods lib junk) bs st c c₁) : Owned c₁ := by
  induction h with
  | refl => exact ho
  | tail h hp ih =>
    obtain ⟨hI₁, hheap, hpath₁⟩ := PassedAll.untouched hmods hI ht hpath h
    obtain ⟨-, hctxs, hlog⟩ := hp.registry hmods (hheap ▸ ht)
      (PassedAll.registered hmods hI ht hpath hr h)
    refine ih.congr hctxs hlog (.of_shape ?_)
    rw [hp.heap_eq hmods hI₁ (hheap ▸ ht) hpath₁]

/-- A sound directive keeps the contexts of the modules. -/
lemma handle_owned (hI : c.Inv (shippedEnv mods lib junk) bs) (ht : TypedStack c.heap bs)
    (hr : Registered c) (ho : Owned c)
    (hroom : c.pushes (shippedEnv mods lib junk) st → c.Room)
    (hpath : c.pathInPlace (shippedEnv mods lib junk) st) {c' : Engine}
    (h : fsConfHandle (shippedEnv mods lib junk) c st = .ok c') : Owned c' := by
  obtain ⟨c₁, bs', hall, hacc⟩ := handle_cases hI hroom h
  obtain ⟨hI₁, hheap, hpath₁⟩ := PassedAll.untouched hmods hI ht hpath hall
  exact hacc.owned hmods hI₁ (hheap ▸ ht) hpath₁ (PassedAll.owned hmods hI ht hpath hr ho hall)

end

lemma eq_map_some_of_reduceOption {α : Type} {l : List (Option α)} (h : none ∉ l) :
    l = l.reduceOption.map some := by
  induction l with
  | nil => rfl
  | cons x l ih =>
    rw [List.mem_cons, not_or] at h
    cases x with
    | none => exact absurd rfl h.1
    | some a => rw [List.reduceOption_cons_of_some, List.map_cons, ← ih h.2]

/-- In every run of sound directives the lists of the modules are the contexts of the blocks that
have been accepted. -/
lemma lists_of_run {mods : List (FsMod ModId Callback)} (hmods : ∀ m ∈ mods, m ∈ shippedMods)
    {lib : Lib} {junk : Junk} {io : ReadOutcome} {mode : ParseMode} {f : FsFile}
    {tokens : FsArr FsStr} {heap : Heap} {s : FsFile × Engine} {ls : List Taking}
    (hrun : Transition.Run (Transition.Guarded (Sound (shippedEnv mods lib junk))
      (ParseStep (shippedEnv mods lib junk) io mode)) (f, Conf.start tokens heap) ls s)
    {m : ModId} (hne : ownCtxs m s.2.log ≠ []) : s.2.Lists m (ownCtxs m s.2.log) := by
  obtain ⟨⟨bs, -, -, hr⟩, ho⟩ := hrun.invariant_guarded
    (I := fun s => (∃ bs, Settled (shippedEnv mods lib junk) bs s.2) ∧ Owned s.2)
    (by
      rintro s l s' ⟨⟨bs, hs⟩, ho⟩ ⟨hroom, hpath⟩ hstep
      have hhandle := hstep.handled.2.2
      obtain ⟨hI, ht, hr⟩ := hs.take l
      have ho' : Owned (s.2.take l) := ⟨ho.filled, ho.typed, ho.nodup⟩
      exact ⟨hs.handle hmods hroom hpath hhandle,
        handle_owned hmods hI ht hr ho' hroom hpath hhandle⟩)
    ⟨⟨[], settled_start _ tokens heap⟩, nofun, nofun, fun _ => List.nodup_nil⟩
  obtain ⟨a, ha, hlist⟩ := hr.ctxs m ((hr.used m).mpr hne)
  refine ⟨(hr.used m).mpr hne, ⟨a, ha, ?_⟩, ho.typed m, ho.nodup m⟩
  rw [← hlist]
  exact eq_map_some_of_reduceOption (ho.filled m a ha)

/-- A context is served: the calls that are made for it succeed, and its `loop` is the loop of the
run. -/
structure Startup.Serves (s : Startup) (answer : StartCall → Bool) (m : ModId) (p : Ptr) : Prop where
  made : ∀ call ∈ ctxCalls m p, call ∈ s.calls ∧ answer call
  loop : s.loop p = some .loop

section

variable {c : Engine} {m : ModId} {ps : List Ptr} {s : Startup} {answer : StartCall → Bool}

/-- A list of different contexts of which only the last one is served. -/
lemma serves_iff_single (hnodup : ps.Nodup) (hne : ps ≠ [])
    (hmade : ∀ p ∈ ps, ctxCalls m p ⊆ s.calls)
    (hloop : ∀ p ∈ ps, s.loop p = some .loop ↔ ps.getLast? = some p) :
    (∀ p ∈ ps, s.Serves answer m p) ↔
      ps.length = 1 ∧ ∀ p ∈ ps, ∀ call ∈ ctxCalls m p, answer call := by
  constructor
  · intro h
    refine ⟨?_, fun p hp call hcall => ((h p hp).made call hcall).2⟩
    have hlast : ∀ p ∈ ps, p = ps.getLast hne := by
      intro p hp
      have hp' := (hloop p hp).mp (h p hp).loop
      rw [List.getLast?_eq_getLast_of_ne_nil hne, Option.some.injEq] at hp'
      exact hp'.symm
    rw [List.eq_replicate_of_mem hlast, List.nodup_replicate] at hnodup
    have hpos := List.length_pos_iff.mpr hne
    exact le_antisymm hnodup hpos
  · rintro ⟨hone, hanswer⟩ p hp
    obtain ⟨q, rfl⟩ := List.length_eq_one_iff.mp hone
    obtain rfl := List.mem_singleton.mp hp
    exact ⟨fun call hcall => ⟨hmade p hp hcall, hanswer p hp call hcall⟩, (hloop p hp).mpr rfl⟩

end

/-- After start-up every http block and every listener is served exactly when there is one of
each and the calls for them succeed. -/
theorem serves_iff {mods : List (FsMod ModId Callback)} (hmods : mods.Perm shippedMods)
    (answer : StartCall → Bool) {c : Engine} {hs ks : List Ptr} (hhttp : c.Lists .http hs)
    (hkafka : c.Lists .kafkaListener ks) (hne : hs ≠ []) (hne' : ks ≠ []) {s : Startup}
    (h : fsGmodInited mods c = some s) :
    ((∀ p ∈ hs, s.Serves answer .http p) ∧ ∀ p ∈ ks, s.Serves answer .kafkaListener p) ↔
      (hs.length = 1 ∧ ∀ p ∈ hs, answer (.uvListen p fsDefaultBacklog)) ∧
        ks.length = 1 ∧ ∀ p ∈ ks, ∀ call ∈ listenerCalls p, answer call := by
  have hmade : ∀ {m : FsMod ModId Callback} {ps : List Ptr}, m ∈ shippedMods →
      c.Lists m.id ps → m.id = .http ∨ m.id = .kafkaListener →
        ∀ p ∈ ps, ctxCalls m.id p ⊆ s.calls := by
    intro m ps hm hlists hid p hp
    obtain ⟨s₁, s₂, hturn, hcalls⟩ := fsGmodInited_split h (hmods.mem_iff.mpr hm)
    exact List.Subset.trans (hlists.called hid hturn p hp) hcalls
  have hhs : ∀ p ∈ hs, s.loop p = some .loop ↔ hs.getLast? = some p := by
    intro p hp
    rw [loop_iff hmods h hhttp hkafka, or_iff_left]
    intro hlast
    exact hhttp.disjoint hkafka (by decide) hp (List.mem_of_getLast? hlast)
  have hks : ∀ p ∈ ks, s.loop p = some .loop ↔ ks.getLast? = some p := by
    intro p hp
    rw [loop_iff hmods h hhttp hkafka, or_iff_right]
    intro hlast
    exact hhttp.disjoint hkafka (by decide) (List.mem_of_getLast? hlast) hp
  have hhttpMem : fsModHttp ∈ shippedMods := by simp [shippedMods]
  have hkafkaMem : fsModKafkaListener ∈ shippedMods := by simp [shippedMods]
  have hhsServed : (∀ p ∈ hs, s.Serves answer .http p) ↔ _ :=
    serves_iff_single hhttp.nodup hne (hmade hhttpMem hhttp (.inl rfl)) hhs
  have hksServed : (∀ p ∈ ks, s.Serves answer .kafkaListener p) ↔ _ :=
    serves_iff_single hkafka.nodup hne' (hmade hkafkaMem hkafka (.inr rfl)) hks
  rw [hhsServed, hksServed]
  simp [ctxCalls]

/-- One http block and one listener. -/
theorem serves_iff_pair :
    ∃ f c ls s, Transition.Run (Transition.Guarded (Sound sampleEnv)
        (ParseStep sampleEnv (fun _ => true) .param))
        (sampleAt (bytes "http\x7bhost a;\x7dkafka\x7btopic t\x7bexec e;\x7d\x7d")) ls (f, c) ∧
      fsGmodInited shippedMods c = some s ∧
      (∀ p ∈ ownCtxs .http c.log, s.Serves (fun _ => true) .http p) ∧
      ∀ p ∈ ownCtxs .kafkaListener c.log, s.Serves (fun _ => true) .kafkaListener p := by
  obtain ⟨ls, ⟨f, c⟩, hrun, htest⟩ := Transition.exists_run_of_follow
    (show ((Transition.follow (parseNext sampleEnv (fun _ => true) .param) (Sound sampleEnv) 8
      (sampleAt (bytes "http\x7bhost a;\x7dkafka\x7btopic t\x7bexec e;\x7d\x7d"))).any fun s =>
        ownCtxs .http s.2.log == [.obj 0] && ownCtxs .kafkaListener s.2.log == [.obj 1] &&
          (fsGmodInited shippedMods s.2).isSome) = true
      by decide +kernel)
  rw [Bool.and_eq_true, Bool.and_eq_true, beq_iff_eq, beq_iff_eq] at htest
  obtain ⟨⟨hhttp, hkafka⟩, hsome⟩ := htest
  obtain ⟨s, hs⟩ := Option.isSome_iff_exists.mp hsome
  have hne : ownCtxs .http c.log ≠ [] := by
    rw [hhttp]
    simp
  have hne' : ownCtxs .kafkaListener c.log ≠ [] := by
    rw [hkafka]
    simp
  have hmods : ∀ m ∈ shippedMods, m ∈ shippedMods := fun _ hm => hm
  refine ⟨f, c, ls, s, hrun, hs, ?_⟩
  refine (serves_iff (.refl _) (fun _ => true) (lists_of_run hmods hrun hne)
    (lists_of_run hmods hrun hne') hne hne' hs).mpr ?_
  rw [hhttp, hkafka]
  simp

/-- Of two http blocks the first one listens without a loop. -/
theorem not_serves_of_two : ¬ ∀ (f : FsFile) (c : Engine) (ls : List Taking) (s : Startup),
    Transition.Run (ParseStep sampleEnv (fun _ => true) .param)
      (sampleAt (bytes "http\x7bhost a;\x7dhttp\x7bhost b;\x7dkafka\x7btopic t\x7bexec e;\x7d\x7d"))
      ls (f, c) → fsGmodInited shippedMods c = some s → ownCtxs .http c.log ≠ [] →
        ownCtxs .kafkaListener c.log ≠ [] → ∀ p ∈ ownCtxs .http c.log, s.loop p = some .loop := by
  intro h
  obtain ⟨ls, ⟨f, c⟩, hrun, htest⟩ := Transition.exists_run_of_follow
    (show ((Transition.follow (parseNext sampleEnv (fun _ => true) .param) (fun _ _ => True) 11
      (sampleAt (bytes
        "http\x7bhost a;\x7dhttp\x7bhost b;\x7dkafka\x7btopic t\x7bexec e;\x7d\x7d"))).any fun s =>
        ownCtxs .http s.2.log == [.obj 0, .obj 1] && ownCtxs .kafkaListener s.2.log == [.obj 2] &&
          (fsGmodInited shippedMods s.2).any fun s => s.loop (.obj 0) == none) = true
      by decide +kernel)
  rw [Bool.and_eq_true, Bool.and_eq_true, beq_iff_eq, beq_iff_eq, Option.any_eq_true] at htest
  obtain ⟨⟨hhttp, hkafka⟩, s, hs, hunset⟩ := htest
  rw [beq_iff_eq] at hunset
  have hset := h f c ls s hrun.unguarded hs (by simp [hhttp]) (by simp [hkafka]) (.obj 0)
    (by simp [hhttp])
  rw [hunset] at hset
  cases hset

end Folksong
