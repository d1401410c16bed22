import Folksong.Mod.Contexts
import Folksong.Mod.Effects

/-!
# Contexts have the type their callback casts them to

`TypedStack` says which blocks can be open inside each other and which object is behind the
context of each of them. Two parameters do not test where they stand, `fs_version_art` at all
and `pass_path` well enough; as long as these are used in their own blocks, every parameter
works on an object that a block of its own module has allocated.
-/

namespace Folksong

/-! ### Commands -/

/-- The callback belongs to a command inside a block. -/
def Callback.child : Callback → Bool
  | .versionInit | .timerBlock | .httpBlock | .kafkaListenerBlock => false
  | _ => true

/-- The callback belongs to a command that opens a block. -/
def Callback.block : Callback → Bool
  | .versionInit | .timerBlock | .httpBlock | .kafkaListenerBlock | .httpKafkaBlock
  | .httpProxyBlock | .kafkaListenerTopic => true
  | _ => false

/-- The block a parameter stands directly in. -/
def Callback.place : Callback → Callback
  | .versionArt => .versionInit
  | .timerTimeout | .timerRepeat | .timerExec => .timerBlock
  | .httpHost | .httpPort => .httpBlock
  | .httpKafkaConfig | .httpKafkaTopicParam | .httpKafkaDefaultTopic | .httpKafkaKeyParam
  | .httpKafkaDefaultKey => .httpKafkaBlock
  | .httpProxyPassPath => .httpProxyBlock
  | .kafkaListenerConfig => .kafkaListenerBlock
  | .kafkaListenerExec => .kafkaListenerTopic
  | k => k

/-- A module has at most one own block. -/
lemma Callback.eq_of_own {k k' : Callback} (hk : k.child = false) (hk' : k'.child = false)
    (howner : k.owner = k'.owner) : k = k' := by
  cases k with
  | versionInit | timerBlock | httpBlock | kafkaListenerBlock =>
    cases k' <;> first | rfl | (cases howner; done) | cases hk'
  | _ => cases hk

/-- The command `cmd` of the module `m` is the one its callback belongs to. -/
structure ShippedCmd (m : ModId) (cmd : FsCmd Callback) : Prop where
  owner : cmd.call.owner = m
  child : cmd.child = cmd.call.child
  block : cmd.block = cmd.call.block

lemma shippedCmd_of_mem {mods : List (FsMod ModId Callback)} (hmods : ∀ m ∈ mods, m ∈ shippedMods)
    {lib : Lib} {junk : Junk} {m : ModId} {cmd : FsCmd Callback}
    (h : (m, cmd) ∈ (shippedEnv mods lib junk).candidates) : ShippedCmd m cmd := by
  have hall : ∀ m ∈ shippedMods, ∀ cmd ∈ m.commands,
      cmd.call.owner = m.id ∧ cmd.child = cmd.call.child ∧ cmd.block = cmd.call.block := by decide
  obtain ⟨mod, hmod, hcmd⟩ := List.mem_flatMap.mp h
  obtain ⟨cmd', hcmd', heq⟩ := List.mem_map.mp hcmd
  cases heq
  obtain ⟨howner, hchild, hblock⟩ :=
    hall mod (hmods mod hmod) cmd (List.takeWhile_subset _ hcmd')
  exact ⟨howner, hchild, hblock⟩

/-! ### The stack -/

/-- The block that adds a route of this kind. -/
def RouteKind.block : RouteKind → Callback
  | .publisher => .httpKafkaBlock
  | .proxy => .httpProxyBlock

/-- The blocks that can be open inside each other, with the types of their contexts. An own
block has an object of its module for itself; a route block stands directly inside an http
block and its route is the last one there; a topic stands inside a listener. -/
inductive TypedStack (h : Heap) : List (Opened ModId Callback) → Prop where
  | nil : TypedStack h []
  | own {b bs s} : b.cmd.call.child = false → ShippedCmd b.mod b.cmd →
      h.shape b.ctx = some s → s.owner = b.mod → (∀ b' ∈ bs, b'.ctx ≠ b.ctx) →
      TypedStack h bs → TypedStack h (b :: bs)
  | route {b parent bs kind} : b.cmd.call = RouteKind.block kind → ShippedCmd b.mod b.cmd →
      parent.mod = .http → b.ctx = parent.ctx → h.shape b.ctx = some (.http (some kind)) →
      TypedStack h (parent :: bs) → TypedStack h (b :: parent :: bs)
  | topic {b parent bs} : b.cmd.call = .kafkaListenerTopic → ShippedCmd b.mod b.cmd →
      parent.cmd.call = .kafkaListenerBlock → b.ctx = parent.ctx → TypedStack h (parent :: bs) →
      TypedStack h (b :: parent :: bs)

lemma Heap.get_of_shape {h : Heap} {p : Ptr} {s : Shape} (hs : h.shape p = some s) :
    ∃ o, h.get p = some o ∧ o.shape = s :=
  Option.map_eq_some_iff.mp hs

namespace TypedStack

variable {h h' : Heap} {b : Opened ModId Callback} {bs : List (Opened ModId Callback)}

lemma shipped (ht : TypedStack h (b :: bs)) : ShippedCmd b.mod b.cmd := by
  cases ht with
  | own _ hship => exact hship
  | route _ hship => exact hship
  | topic _ hship => exact hship

lemma owner (ht : TypedStack h (b :: bs)) : b.cmd.call.owner = b.mod := ht.shipped.owner

lemma tail (ht : TypedStack h (b :: bs)) : TypedStack h bs := by
  cases ht with
  | own _ _ _ _ _ ht => exact ht
  | route _ _ _ _ _ ht => exact ht
  | topic _ _ _ _ ht => exact ht

lemma own_inv (ht : TypedStack h (b :: bs)) (hc : b.cmd.call.child = false) :
    (∃ s, h.shape b.ctx = some s ∧ s.owner = b.mod) ∧ ∀ b' ∈ bs, b'.ctx ≠ b.ctx := by
  cases ht with
  | own _ _ hs hown hne => exact ⟨⟨_, hs, hown⟩, hne⟩
  | @route _ parent bs kind hcall =>
    rw [hcall] at hc
    cases kind <;> cases hc
  | topic hcall =>
    rw [hcall] at hc
    cases hc

/-- An own block has an object of its module. -/
lemma own_shape (ht : TypedStack h (b :: bs)) (hc : b.cmd.call.child = false) :
    ∃ s, h.shape b.ctx = some s ∧ s.owner = b.mod := (ht.own_inv hc).1

/-- An own block has its context for itself. -/
lemma fresh (ht : TypedStack h (b :: bs)) (hc : b.cmd.call.child = false) :
    ∀ b' ∈ bs, b'.ctx ≠ b.ctx := (ht.own_inv hc).2

/-- Every open block has a context. -/
lemma shape_isSome (ht : TypedStack h bs) : ∀ b ∈ bs, ∃ s, h.shape b.ctx = some s := by
  induction ht with
  | nil => exact fun _ hb => by cases hb
  | own _ _ hs _ _ _ ih => exact List.forall_mem_cons.mpr ⟨⟨_, hs⟩, ih⟩
  | route _ _ _ _ hs _ ih => exact List.forall_mem_cons.mpr ⟨⟨_, hs⟩, ih⟩
  | topic _ _ _ heq _ ih =>
    refine List.forall_mem_cons.mpr ⟨?_, ih⟩
    rw [heq]
    exact ih _ List.mem_cons_self

/-- Only the types of the contexts matter. -/
lemma congr (ht : TypedStack h bs) (hs : ∀ b ∈ bs, h'.shape b.ctx = h.shape b.ctx) :
    TypedStack h' bs := by
  induction ht with
  | nil => exact .nil
  | own hc hship hshape hown hne _ ih =>
    rw [List.forall_mem_cons] at hs
    exact .own hc hship (hs.1.trans hshape) hown hne (ih hs.2)
  | route hcall hship hmod heq hshape _ ih =>
    rw [List.forall_mem_cons] at hs
    exact .route hcall hship hmod heq (hs.1.trans hshape) (ih hs.2)
  | topic hcall hship hparent heq _ ih =>
    rw [List.forall_mem_cons] at hs
    exact .topic hcall hship hparent heq (ih hs.2)

/-- A block of a module without sub-blocks is an own block. -/
lemma own_of_mod (ht : TypedStack h (b :: bs))
    (hm : b.mod = .version ∨ b.mod = .timer ∨ b.mod = .http) : b.cmd.call.child = false := by
  have hno : b.cmd.call.owner ≠ .httpKafka ∧ b.cmd.call.owner ≠ .httpProxy ∧
      b.cmd.call.owner ≠ .kafkaListener := by
    rw [ht.owner]
    rcases hm with hm | hm | hm <;> rw [hm] <;> decide
  cases ht with
  | own hc => exact hc
  | @route _ parent bs kind hcall =>
    rw [hcall] at hno
    cases kind
    · exact absurd rfl hno.1
    · exact absurd rfl hno.2.1
  | topic hcall =>
    rw [hcall] at hno
    exact absurd rfl hno.2.2

/-- The object behind the context of an own block. -/
lemma own_obj (ht : TypedStack h (b :: bs)) {k : Callback} (hcall : b.cmd.call = k)
    (hk : k.child = false) : ∃ o, h.get b.ctx = some o ∧ o.shape.owner = k.owner := by
  subst hcall
  obtain ⟨s, hs, hown⟩ := ht.own_shape hk
  obtain ⟨o, ho, rfl⟩ := Heap.get_of_shape hs
  exact ⟨o, ho, hown.trans ht.owner.symm⟩

/-- The open block of a module without sub-blocks. -/
lemma call_of_mod (ht : TypedStack h (b :: bs)) {k : Callback} (hk : k.child = false)
    (hm : b.mod = k.owner) (hmod : k.owner = .version ∨ k.owner = .timer ∨ k.owner = .http) :
    b.cmd.call = k :=
  Callback.eq_of_own (ht.own_of_mod (hm ▸ hmod)) hk (ht.owner.trans hm)

/-- The object behind the context of a route block. -/
lemma route_obj (ht : TypedStack h (b :: bs)) (kind : RouteKind)
    (hcall : b.cmd.call = kind.block) :
    ∃ o, h.get b.ctx = some o ∧ o.shape = .http (some kind) := by
  cases ht with
  | own hc =>
    rw [hcall] at hc
    cases kind <;> cases hc
  | @route _ _ _ kind' hcall' _ _ _ hs =>
    have hkind : kind' = kind := by
      rw [hcall'] at hcall
      cases kind <;> cases kind' <;> first | rfl | cases hcall
    subst hkind
    exact Heap.get_of_shape hs
  | topic hcall' =>
    rw [hcall'] at hcall
    cases kind <;> cases hcall

lemma listener_obj (ht : TypedStack h (b :: bs)) (hcall : b.cmd.call = .kafkaListenerBlock) :
    ∃ o, h.get b.ctx = some o ∧ o.shape = .listener := by
  obtain ⟨o, ho, hown⟩ := ht.own_obj hcall rfl
  exact ⟨o, ho, by cases o <;> first | rfl | cases hown⟩

/-- A topic works on the listener around it. -/
lemma topic_obj (ht : TypedStack h (b :: bs)) (hcall : b.cmd.call = .kafkaListenerTopic) :
    ∃ o, h.get b.ctx = some o ∧ o.shape = .listener := by
  cases ht with
  | own hc =>
    rw [hcall] at hc
    cases hc
  | @route _ _ _ kind hcall' =>
    rw [hcall] at hcall'
    cases kind <;> cases hcall'
  | topic _ _ hparent heq ht =>
    rw [heq]
    exact ht.listener_obj hparent

end TypedStack

/-! ### Callbacks meet the objects they want -/

section Kept

variable {env : Env ModId Callback Heap} {c : Engine} {bs : List (Opened ModId Callback)}

/-- The modules and commands of the frames are those of the open blocks. -/
lemma Conf.Kept.frames (hk : c.Kept env bs) :
    c.stMod.map (fun f => (f.mod, f.cmd)) = bs.map fun b => (b.mod, b.cmd) := by
  rw [Conf.Kept] at hk
  generalize c.stMod = fs at hk
  induction hk with
  | nil => rfl
  | cons hf _ ih => rw [List.map_cons, List.map_cons, ih, hf.mod, hf.cmd]

lemma Conf.Kept.topMod (hk : c.Kept env bs) : topMod c = bs.head?.map Opened.mod := by
  have h := congrArg (fun l => l.head?.map Prod.fst) hk.frames
  simpa [Folksong.topMod, List.head?_map, Function.comp_def] using h

lemma Conf.Kept.topCmd (hk : c.Kept env bs) : topCmd c = bs.head?.map fun b => b.cmd.call := by
  have h := congrArg (fun l => l.head?.map fun q => q.2.call) hk.frames
  simpa [Folksong.topCmd, List.head?_map, Function.comp_def] using h

lemma Conf.Kept.subtopMod (hk : c.Kept env bs) :
    subtopMod c = bs.tail.head?.map Opened.mod := by
  have h := congrArg (fun l => l.tail.head?.map Prod.fst) hk.frames
  simpa [Folksong.subtopMod, ← List.map_tail, List.head?_map, Function.comp_def] using h

lemma Conf.Kept.subtopCmd (hk : c.Kept env bs) :
    subtopCmd c = bs.tail.head?.map fun b => b.cmd.call := by
  have h := congrArg (fun l => l.tail.head?.map fun q => q.2.call) hk.frames
  simpa [Folksong.subtopCmd, ← List.map_tail, List.head?_map, Function.comp_def] using h

end Kept

section

variable {env : Env ModId Callback Heap} {c : Engine} {b : Opened ModId Callback}
  {bs : List (Opened ModId Callback)}

/-- A parameter that goes beyond its tests stands in its place, given that the two that test too
little do. -/
lemma TypedStack.place (ht : TypedStack c.heap (b :: bs)) (hk : c.Kept env (b :: bs)) {k : Callback}
    (hchild : k.child = true) (hblock : k.block = false) (happ : k.applies c)
    (hart : k = .versionArt → topMod c = some .version)
    (hpath : k = .httpProxyPassPath → subtopMod c = some .http →
      topCmd c = some .httpProxyBlock) : b.cmd.call = k.place := by
  have htop := hk.topMod
  have hcmd := hk.topCmd
  simp only [List.head?_cons, Option.map_some] at htop hcmd
  cases k with
  | versionArt =>
    have hm : b.mod = .version := by simpa [htop] using hart rfl
    exact ht.call_of_mod rfl hm (.inl rfl)
  | timerTimeout | timerRepeat | timerExec =>
    have hm : b.mod = .timer := by simpa [Callback.applies, Callback.guard, htop] using happ
    exact ht.call_of_mod rfl hm (.inr (.inl rfl))
  | httpHost | httpPort =>
    have hm : b.mod = .http := by simpa [Callback.applies, Callback.guard, htop] using happ
    exact ht.call_of_mod rfl hm (.inr (.inr rfl))
  | httpKafkaConfig | httpKafkaTopicParam | httpKafkaDefaultTopic | httpKafkaKeyParam
  | httpKafkaDefaultKey =>
    simpa [Callback.applies, Callback.guard, hcmd, Callback.place] using happ
  | httpProxyPassPath => simpa [hcmd, Callback.place] using hpath rfl happ.1
  | kafkaListenerConfig => simpa [hcmd, Callback.place] using happ.1.2
  | kafkaListenerExec => simpa [hcmd, Callback.place] using happ.2
  | versionInit | timerBlock | httpBlock | kafkaListenerBlock => cases hchild
  | httpKafkaBlock | httpProxyBlock | kafkaListenerTopic => cases hblock

/-- In its place a parameter finds the object it wants behind the context of the innermost
block. -/
lemma TypedStack.wants (ht : TypedStack c.heap (b :: bs)) {k : Callback} (hchild : k.child = true)
    (hblock : k.block = false) (hplace : b.cmd.call = k.place) :
    ∃ o, c.heap.get b.ctx = some o ∧ k.wants o.shape := by
  cases k with
  | versionArt | timerTimeout | timerRepeat | timerExec | httpHost | httpPort =>
    obtain ⟨o, ho, hown⟩ := ht.own_obj hplace rfl
    exact ⟨o, ho, by cases o <;> first | rfl | exact ⟨_, rfl⟩ | cases hown⟩
  | httpKafkaConfig | httpKafkaTopicParam | httpKafkaDefaultTopic | httpKafkaKeyParam
  | httpKafkaDefaultKey => exact ht.route_obj .publisher hplace
  | httpProxyPassPath => exact ht.route_obj .proxy hplace
  | kafkaListenerConfig => exact ht.listener_obj hplace
  | kafkaListenerExec => exact ht.topic_obj hplace
  | versionInit | timerBlock | httpBlock | kafkaListenerBlock => cases hchild
  | httpKafkaBlock | httpProxyBlock | kafkaListenerTopic => cases hblock

/-- A block command finds the object it wants: an own block its fresh object, a sub-block that
of the block around it. -/
lemma suited_block (hk : c.Kept env (b :: bs)) (ht : TypedStack c.heap bs)
    (howner : b.cmd.call.owner = b.mod) (hblock : b.cmd.call.block = true)
    (hown : b.cmd.call.child = false → ∃ s, c.heap.shape b.ctx = some s ∧ s.owner = b.mod)
    (hchild : b.cmd.call.child = true → ∀ b' ∈ bs.head?, b.ctx = b'.ctx) :
    Suited b.cmd.call c b.ctx := by
  intro happ
  have hsub := hk.subtopMod
  have hsubcmd := hk.subtopCmd
  simp only [List.tail_cons] at hsub hsubcmd
  -- A sub-block inside an http block.
  have hhttp : subtopMod c = some .http → b.cmd.call.child = true →
      ∃ o last, c.heap.get b.ctx = some o ∧ o.shape = .http last := by
    intro hm hc
    rw [hsub] at hm
    cases bs with
    | nil => cases hm
    | cons b' bs' =>
      simp only [List.head?_cons, Option.map_some, Option.some.injEq] at hm
      have hcall : b'.cmd.call = .httpBlock := ht.call_of_mod rfl hm (.inr (.inr rfl))
      obtain ⟨o, ho, hown⟩ := ht.own_obj hcall rfl
      rw [← hchild hc b' rfl] at ho
      cases o with
      | http http => exact ⟨_, _, ho, rfl⟩
      | version => cases hown
      | timer => cases hown
      | listener => cases hown
  cases hcall : b.cmd.call with
  | versionInit | timerBlock | httpBlock | kafkaListenerBlock =>
    rw [hcall] at howner hown
    obtain ⟨s, hs, hm⟩ := hown rfl
    obtain ⟨o, ho, rfl⟩ := Heap.get_of_shape hs
    refine ⟨o, ho, ?_⟩
    rw [← howner] at hm
    cases o <;> trivial
  | httpKafkaBlock | httpProxyBlock =>
    rw [hcall] at happ hhttp
    obtain ⟨o, last, ho, hs⟩ := hhttp happ.1 rfl
    exact ⟨o, ho, last, hs⟩
  | kafkaListenerTopic =>
    rw [hcall] at happ hchild
    have hp := happ.2
    simp only [hsubcmd] at hp
    cases bs with
    | nil => cases hp
    | cons b' bs' =>
      simp only [List.head?_cons, Option.map_some, Option.some.injEq] at hp
      rw [hchild rfl b' rfl]
      exact ht.listener_obj hp
  | _ =>
    rw [hcall] at hblock
    cases hblock

end

/-! ### Directives keep the types -/

/-- The directive tries the command of this callback. -/
def Conf.tries (env : Env ModId Callback Heap) (c : Engine) (st : Status) (k : Callback) : Bool :=
  (c.tokens.nth 0).any fun name =>
    env.candidates.any fun p => p.2.call == k && p.2.matches name st

/-- `fs_version_art` is used only directly inside a block of its module. -/
def Conf.artInPlace (env : Env ModId Callback Heap) (c : Engine) (st : Status) : Bool :=
  !c.tries env st .versionArt || topMod c == some .version

/-- `pass_path`, where an http block is the parent of the innermost block, is used only inside a
proxy block. -/
def Conf.pathInPlace (env : Env ModId Callback Heap) (c : Engine) (st : Status) : Bool :=
  !c.tries env st .httpProxyPassPath || subtopMod c != some .http ||
    topCmd c == some .httpProxyBlock

lemma Tried.tries {env : Env ModId Callback Heap} {c : Engine} {st : Status} {m : ModId}
    {cmd : FsCmd Callback} (h : Tried env c st m cmd) : c.tries env st cmd.call := by
  obtain ⟨name, hname, hmatch⟩ := h.named
  simp only [Conf.tries, hname, Option.any_some, List.any_eq_true, Bool.and_eq_true, beq_iff_eq]
  exact ⟨_, h.mem, rfl, hmatch⟩

lemma topMod_of_artInPlace {env : Env ModId Callback Heap} {c : Engine} {st : Status} {m : ModId}
    {cmd : FsCmd Callback} (hplace : c.artInPlace env st) (h : Tried env c st m cmd)
    (hk : cmd.call = .versionArt) : topMod c = some .version := by
  have htries := h.tries
  rw [hk] at htries
  simpa only [Conf.artInPlace, htries, Bool.not_true, Bool.false_or, beq_iff_eq] using hplace

lemma topCmd_of_pathInPlace {env : Env ModId Callback Heap} {c : Engine} {st : Status} {m : ModId}
    {cmd : FsCmd Callback} (hplace : c.pathInPlace env st) (h : Tried env c st m cmd)
    (hk : cmd.call = .httpProxyPassPath) (hm : subtopMod c = some .http) :
    topCmd c = some .httpProxyBlock := by
  have htries := h.tries
  rw [hk] at htries
  simpa only [Conf.pathInPlace, htries, hm, bne_self_eq_false, Bool.not_true, Bool.false_or,
    beq_iff_eq] using hplace

/-- The module of an own block allocates its context. -/
lemma InitMod.alloc {mods : List (FsMod ModId Callback)} {lib : Lib} {junk : Junk} {c : Engine}
    {m : ModId} {cmd : FsCmd Callback} {p : Ptr} {h : Heap} {log : List (Event ModId Callback)}
    (hinit : InitMod (shippedEnv mods lib junk) c m cmd .ok p h log) (hship : ShippedCmd m cmd)
    (hch : cmd.child = false) :
    ∃ o, p = (c.heap.alloc o).1 ∧ h = (c.heap.alloc o).2 ∧ o.shape.owner = m := by
  rw [hship.child] at hch
  cases hinit with
  | absent hnone =>
    have howner := hship.owner
    cases hk : cmd.call <;> rw [hk] at hch howner <;> cases howner <;> cases hch <;> cases hnone
  | stored hf hcall =>
    obtain ⟨o, hq, hh, ho⟩ := (initMod_effect hf hcall).2 rfl
    exact ⟨o, Option.some.inj hq, hh, ho⟩
  | unset hf hcall =>
    obtain ⟨o, hq, -⟩ := (initMod_effect hf hcall).2 rfl
    cases hq

section

variable {mods : List (FsMod ModId Callback)} (hmods : ∀ m ∈ mods, m ∈ shippedMods) {lib : Lib}
  {junk : Junk} {c : Engine} {bs : List (Opened ModId Callback)} {st : Status}

include hmods

lemma Tried.shipped {m : ModId} {cmd : FsCmd Callback}
    (h : Tried (shippedEnv mods lib junk) c st m cmd) : ShippedCmd m cmd :=
  shippedCmd_of_mem hmods h.mem

/-- What a parameter command is. -/
lemma Tried.param {m : ModId} {cmd : FsCmd Callback}
    (hc : Tried (shippedEnv mods lib junk) c st m cmd) (hp : cmd.isParam) :
    cmd.call.child = true ∧ cmd.call.block = false := by
  have hship := hc.shipped hmods
  rw [FsCmd.isParam, hship.child, hship.block, Bool.and_eq_true, Bool.not_eq_true'] at hp
  exact hp

/-- A command that is no parameter opens a block. -/
lemma Tried.opens {m : ModId} {cmd : FsCmd Callback}
    (hc : Tried (shippedEnv mods lib junk) c st m cmd) (hp : cmd.isParam = false) :
    cmd.call.block = true := by
  have hship := hc.shipped hmods
  rw [FsCmd.isParam, hship.child, hship.block] at hp
  cases hk : cmd.call <;> rw [hk] at hp <;> first | rfl | cases hp

/-- Entering a block keeps the types of the open ones, and an own block gets an object of its
module that no open block has. -/
lemma Entry.typed (ht : TypedStack c.heap bs) {m : ModId} {cmd : FsCmd Callback}
    (hc : Tried (shippedEnv mods lib junk) c st m cmd) {p : Ptr} {first : Bool} {c₁ : Engine}
    (hE : Entry (shippedEnv mods lib junk) c bs m cmd p first c₁) :
    TypedStack c₁.heap bs ∧
      (cmd.call.child = false → (∃ s, c₁.heap.shape p = some s ∧ s.owner = m) ∧
        ∀ b ∈ bs, b.ctx ≠ p) ∧
      (cmd.call.child = true → c₁.heap = c.heap ∧ ∀ b ∈ bs.head?, p = b.ctx) := by
  have hship := hc.shipped hmods
  cases hE with
  | child hch hp _ hheap =>
    rw [hship.child] at hch
    rw [hheap]
    refine ⟨ht, fun h => ?_, fun _ => ⟨rfl, hp⟩⟩
    rw [hch] at h
    cases h
  | own hch hinit _ _ hheap =>
    obtain ⟨o, rfl, rfl, ho⟩ := hinit.alloc hship hch
    have hch' := hship.child.symm.trans hch
    have hne : ∀ b ∈ bs, b.ctx ≠ (c.heap.alloc o).1 := by
      intro b hb heq
      obtain ⟨s, hs⟩ := ht.shape_isSome b hb
      rw [Heap.shape, heq, Heap.get_alloc_none] at hs
      cases hs
    have hshape := Heap.shape_alloc c.heap o
    rw [hheap]
    refine ⟨ht.congr fun b hb => ?_, fun _ => ⟨⟨o.shape, ?_, ho⟩, hne⟩, fun h => ?_⟩
    · rw [hshape, Function.update_of_ne (hne b hb)]
    · rw [hshape, Function.update_self]
    · rw [hch'] at h
      cases h

/-- The call of a block command meets an object of the type it wants. -/
lemma Entry.suited (ht : TypedStack c.heap bs) {m : ModId} {cmd : FsCmd Callback}
    (hc : Tried (shippedEnv mods lib junk) c st m cmd) (hp : cmd.isParam = false) {p : Ptr}
    {first : Bool} {c₁ : Engine} (hE : Entry (shippedEnv mods lib junk) c bs m cmd p first c₁) :
    Suited cmd.call c₁ p := by
  have hship := hc.shipped hmods
  obtain ⟨ht₁, hown, hchild⟩ := hE.typed hmods ht hc
  have hblock := hc.opens hmods hp
  exact suited_block hE.entered.keeps ht₁ hship.owner hblock
    (fun h => (hown h).1) fun h => (hchild h).2

lemma Entry.effect (ht : TypedStack c.heap bs) {m : ModId} {cmd : FsCmd Callback}
    (hc : Tried (shippedEnv mods lib junk) c st m cmd) (hp : cmd.isParam = false) {p : Ptr}
    {first : Bool} {c₁ : Engine} (hE : Entry (shippedEnv mods lib junk) c bs m cmd p first c₁) :
    (shippedCall lib cmd.call c₁ p).All (Effect cmd.call c₁ p) :=
  call_effect cmd.call (hE.suited hmods ht hc hp).harmless

/-- The object a parameter works on is one it does no harm to. -/
lemma param_harmless (hI : c.Inv (shippedEnv mods lib junk) bs) (ht : TypedStack c.heap bs)
    (hplace : c.pathInPlace (shippedEnv mods lib junk) st) {m : ModId} {cmd : FsCmd Callback}
    (hc : Tried (shippedEnv mods lib junk) c st m cmd) (hp : cmd.isParam)
    {b : Opened ModId Callback} (hb : b ∈ bs.head?) : Harmless cmd.call c b.ctx := by
  cases bs with
  | nil => cases hb
  | cons b' bs' =>
    cases hb
    by_cases hart : cmd.call = .versionArt
    · intro _
      obtain ⟨s, hs⟩ := ht.shape_isSome b List.mem_cons_self
      obtain ⟨o, ho, -⟩ := Heap.get_of_shape hs
      refine ⟨o, ho, ?_⟩
      rw [hart]
      trivial
    · obtain ⟨hchild, hblock⟩ := hc.param hmods hp
      refine Suited.harmless fun happ => ht.wants hchild hblock ?_
      exact ht.place hI.kept hchild hblock happ (fun h => absurd h hart)
        (topCmd_of_pathInPlace hplace hc)

/-- The call of a parameter does no harm. -/
lemma param_effect (hI : c.Inv (shippedEnv mods lib junk) bs) (ht : TypedStack c.heap bs)
    (hplace : c.pathInPlace (shippedEnv mods lib junk) st) {m : ModId} {cmd : FsCmd Callback}
    (hc : Tried (shippedEnv mods lib junk) c st m cmd) (hp : cmd.isParam)
    {b : Opened ModId Callback} (hb : b ∈ bs.head?) :
    (shippedCall lib cmd.call c b.ctx).All (Effect cmd.call c b.ctx) :=
  call_effect cmd.call (param_harmless hmods hI ht hplace hc hp hb)

/-- A block command that passes is a publisher or a proxy block, and has touched nothing. -/
lemma Entry.of_pass (ht : TypedStack c.heap bs) {m : ModId} {cmd : FsCmd Callback}
    (hc : Tried (shippedEnv mods lib junk) c st m cmd) (hp : cmd.isParam = false) {p : Ptr}
    {first : Bool} {c₁ : Engine} (hE : Entry (shippedEnv mods lib junk) c bs m cmd p first c₁)
    {h : Heap} (hcall : shippedCall lib cmd.call c₁ p = some (.pass, h)) :
    h = c₁.heap ∧ cmd.child = true ∧ (m = .httpKafka ∨ m = .httpProxy) := by
  have hship := hc.shipped hmods
  obtain ⟨hheap, hguard⟩ := (hE.effect hmods ht hc hp _ _ hcall).pass rfl
  have htop := hE.entered.keeps.topMod
  simp only [List.head?_cons, Option.map_some] at htop
  have hblock := hc.opens hmods hp
  refine ⟨hheap, ?_⟩
  rw [hship.child, ← hship.owner]
  rw [← hship.owner] at htop
  cases hk : cmd.call with
  | versionInit | timerBlock | httpBlock =>
    rw [hk] at hguard
    exact absurd trivial hguard
  | kafkaListenerBlock | kafkaListenerTopic =>
    rw [hk] at hguard htop
    exact absurd htop hguard
  | httpKafkaBlock => exact ⟨rfl, .inl rfl⟩
  | httpProxyBlock => exact ⟨rfl, .inr rfl⟩
  | _ =>
    rw [hk] at hblock
    cases hblock

/-- A command that passes leaves the memory as it was. -/
lemma Passed.heap_eq (hI : c.Inv (shippedEnv mods lib junk) bs) (ht : TypedStack c.heap bs)
    (hplace : c.pathInPlace (shippedEnv mods lib junk) st) {c' : Engine}
    (h : Passed (shippedEnv mods lib junk) c bs st c') : c'.heap = c.heap := by
  cases h with
  | param hc hp hb hcall =>
    exact ((param_effect hmods hI ht hplace hc hp hb _ _ hcall).pass rfl).1
  | initMod hc hch hinit _ hheap =>
    rw [hheap]
    cases hinit with
    | stored hf hcall => exact (initMod_effect hf hcall).1 rfl
    | unset hf hcall => exact (initMod_effect hf hcall).1 rfl
  | call hc hp hE hcall _ hheap _ _ _ hun =>
    obtain ⟨hh, hch, -⟩ := hE.of_pass hmods ht hc hp hcall
    obtain ⟨ctxs, rfl⟩ := Conf.unregister_eq hun
    rw [(hc.shipped hmods).child] at hch
    exact (hheap.trans hh).trans ((hE.typed hmods ht hc).2.2 hch).1

end

end Folksong
