import Folksong.Script.Basic
import Folksong.Mod.Inited

/-!
# A directive in its place is tried by its own command

The other command with the same word may come first, but it declines there, and what it leaves
behind makes no difference.
-/

namespace Folksong

/-! ### Words -/

section

variable {α : Type}

lemma FsArr.nth_of_map {arr : FsArr α} {ts : List α} (h : arr.contents = ts.map some) {i : Nat}
    {t : α} (ht : ts[i]? = some t) : arr.nth i = some t :=
  FsArr.nth_of_contents (by rw [h, List.getElem?_map, ht]; rfl)

end

lemma foldl_push_contents (tokens : FsArr FsStr) (ts : List FsStr) :
    (ts.foldl FsArr.push tokens).contents = tokens.contents ++ ts.map some := by
  induction ts generalizing tokens with
  | nil => simp
  | cons t ts ih => rw [List.foldl_cons, ih, FsArr.push_contents]; simp

/-- The slots of a directive hold its words. -/
lemma FsArr.refill_contents (tokens : FsArr FsStr) (ts : List FsStr) :
    (tokens.refill ts).contents = ts.map some := by
  rw [FsArr.refill, foldl_push_contents, FsArr.contents]
  simp

/-! ### Places -/

/-- A directive of this callback can stand directly in the block `inner`, or at top level. -/
def Callback.Stands (inner : Option Callback) (k : Callback) : Prop :=
  (k.isParam = true ∧ inner = some k.place) ∨ k.opensIn inner = true

/-- How the directive ends that has this command. -/
def Callback.ending (k : Callback) : Status := if k.block then .blockStart else .ok

/-- The innermost open block. -/
def innermost (bs : List (Opened ModId Callback)) : Option Callback :=
  bs.head?.map fun b => b.cmd.call

section

variable {k k' : Callback} {inner : Option Callback}

lemma Callback.cmd_call (k : Callback) : k.cmd.call = k := by
  cases k <;> rfl

lemma Callback.cmd_child (k : Callback) : k.cmd.child = k.child := by
  cases k <;> rfl

lemma Callback.cmd_block (k : Callback) : k.cmd.block = k.block := by
  cases k <;> rfl

lemma Callback.isParam_cmd (k : Callback) : k.cmd.isParam = k.isParam := by
  rw [FsCmd.isParam, Callback.isParam, k.cmd_child, k.cmd_block]

/-- The command of every callback is in the table. -/
lemma cmd_mem_shipped (k : Callback) : (k.owner, k.cmd) ∈ shippedCommands := by
  cases k <;> decide +kernel

lemma Callback.fits_cmd (k : Callback) : k.cmd.fits k.ending := by
  rw [FsCmd.fits, k.cmd_block, Callback.ending]
  cases k.block <;> rfl

lemma Callback.ending_ne (k : Callback) : k.ending ≠ .blockEnd := by
  rw [Callback.ending]
  split_ifs <;> exact Status.noConfusion

/-- A block that can stand somewhere is no parameter. -/
lemma Callback.block_of_opensIn (h : k.opensIn inner = true) : k.block = true := by
  cases k <;> first | rfl | cases h

end

variable {mods : List (FsMod ModId Callback)} {lib : Lib} {junk : Junk} {c : Engine}
  {bs : List (Opened ModId Callback)} {k k' : Callback} {l : Line}

lemma mem_candidates (hmods : mods.Perm shippedMods) (k : Callback) :
    (k.owner, k.cmd) ∈ (shippedEnv mods lib junk).candidates :=
  (hmods.flatMap_right _).mem_iff.mpr (cmd_mem_shipped k)

lemma Line.Names.matches (hmods : mods.Perm shippedMods) (hl : l.Names k) :
    k.cmd.matches l.name k.ending := by
  have hmem : (k.owner, k.cmd) ∈ (shippedEnv mods .succeeding .null).candidates :=
    mem_candidates hmods k
  exact (matches_iff_begins (mem_shipped_of_perm hmods) hl.isToken hmem).mpr ⟨hl.begins, k.fits_cmd⟩

lemma topMod_of_typed (hk : c.Kept (shippedEnv mods lib junk) bs) (ht : TypedStack c.heap bs) :
    topMod c = (innermost bs).map Callback.owner := by
  rw [hk.topMod, innermost]
  cases bs with
  | nil => rfl
  | cons b bs => exact congrArg some ht.owner.symm

/-- In the place of a directive the other command with its word declines. -/
lemma rival_declines (hk : c.Kept (shippedEnv mods lib junk) bs) (ht : TypedStack c.heap bs)
    (hstands : k.Stands (innermost bs)) (hrival : k.rival = some k') : k'.Declines c := by
  have htop := topMod_of_typed hk ht
  have hcmd : topCmd c = innermost bs := hk.topCmd
  have hparam : k.block = false → innermost bs = some k.place := by
    intro hblock
    rcases hstands with ⟨-, hinner⟩ | hopens
    · exact hinner
    · rw [Callback.block_of_opensIn hopens] at hblock
      cases hblock
  have hopens : k.block = true → k.opensIn (innermost bs) = true := by
    intro hblock
    rcases hstands with ⟨hparam, -⟩ | hopens
    · rw [Callback.isParam, hblock, Bool.not_true, Bool.and_false] at hparam
      cases hparam
    · exact hopens
  cases k with
  | httpKafkaBlock =>
    cases hrival
    have hinner : innermost bs = some .httpBlock := by simpa [Callback.opensIn] using hopens rfl
    rw [hinner] at htop
    exact stMod_ne_nil htop
  | kafkaListenerBlock =>
    cases hrival
    have hinner : innermost bs = none := by simpa [Callback.opensIn] using hopens rfl
    rw [hinner] at htop
    simp [Callback.Declines, htop]
  | httpKafkaConfig =>
    cases hrival
    right
    rw [hcmd, hparam rfl]
    simp [Callback.place]
  | kafkaListenerConfig =>
    cases hrival
    rw [Callback.Declines, hcmd, hparam rfl]
    simp [Callback.place]
  | timerExec =>
    cases hrival
    rw [Callback.Declines, htop, hparam rfl]
    simp [Callback.place, Callback.owner]
  | kafkaListenerExec =>
    cases hrival
    rw [Callback.Declines, htop, hparam rfl]
    simp [Callback.place, Callback.owner]
  | _ => cases hrival

/-! ### The loops -/

/-- What the loops have done to the engine when they come to the command. -/
structure Reaches (env : Env ModId Callback Heap) (bs : List (Opened ModId Callback))
    (c c₁ : Engine) : Prop where
  settled : Settled env bs c₁
  tokens : c₁.tokens = c.tokens
  heap : c₁.heap = c.heap
  listed : ∀ m, ownCtxs m c₁.log = ownCtxs m c.log
  count : c₁.ctx.eleCount = c.ctx.eleCount
  room : c.Room → c₁.Room
  owned : Owned c → Owned c₁

lemma Reaches.refl {env : Env ModId Callback Heap} (hs : Settled env bs c) :
    Reaches env bs c c :=
  ⟨hs, rfl, rfl, fun _ => rfl, rfl, id, id⟩

/-- The names of two commands that fit the same directive. -/
lemma fitting_cmd (hmods : mods.Perm shippedMods) (hl : l.Names k) :
    (k.owner, k.cmd) ∈ (shippedEnv mods lib junk).fitting l.name k.ending :=
  Env.mem_fitting.mpr ⟨mem_candidates hmods k, hl.matches hmods⟩

lemma tries_passPath (hmods : mods.Perm shippedMods) (hl : l.Names k)
    (hname : c.tokens.nth 0 = some l.name)
    (h : c.tries (shippedEnv mods lib junk) k.ending .httpProxyPassPath) :
    k = .httpProxyPassPath := by
  rw [Conf.tries, hname, Option.any_some, List.any_eq_true] at h
  obtain ⟨p, hp, htest⟩ := h
  rw [Bool.and_eq_true, beq_iff_eq] at htest
  obtain ⟨hcall, hmatch⟩ := htest
  have hfit : p ∈ (shippedEnv mods lib junk).fitting l.name k.ending :=
    Env.mem_fitting.mpr ⟨hp, hmatch⟩
  rcases rival_of_matches (mem_shipped_of_perm hmods) hl.isToken hfit (fitting_cmd hmods hl) with
    heq | hrival
  · rw [heq, Callback.cmd_call] at hcall
    exact hcall
  · rw [hcall] at hrival
    cases hrival

/-- `pass_path` stands in a proxy block. -/
lemma pathInPlace_of_stands (hmods : mods.Perm shippedMods) (hl : l.Names k)
    (hk : c.Kept (shippedEnv mods lib junk) bs) (hname : c.tokens.nth 0 = some l.name)
    (hstands : k.Stands (innermost bs)) : c.pathInPlace (shippedEnv mods lib junk) k.ending := by
  rw [Conf.pathInPlace, Bool.or_eq_true, beq_iff_eq]
  by_cases htries : c.tries (shippedEnv mods lib junk) k.ending .httpProxyPassPath
  · obtain rfl := tries_passPath hmods hl hname htries
    right
    rcases hstands with ⟨-, hinner⟩ | hopens
    · exact hk.topCmd.trans hinner
    · cases hopens
  · left
    simp [htries]

lemma Registered.unregistered_httpKafka (h : Registered c) : c.Unregistered .httpKafka :=
  ⟨h.routes.1, h.unused _ h.routes.1⟩

/-- A command that declines passes. -/
lemma tryCmd_declines {m : ModId} {cmd : FsCmd Callback}
    (hs : Settled (shippedEnv mods lib junk) bs c) (hship : ShippedCmd m cmd)
    (h : cmd.call.Declines c) (hne : cmd.call.block = false → c.stMod ≠ [])
    (st : Status) (first : Bool) :
    ∃ first₁ c₁, tryCmd (shippedEnv mods lib junk) c m cmd st first = .error (.pass first₁ c₁) := by
  cases hblock : cmd.call.block with
  | false =>
    obtain ⟨c₁, hpass, -⟩ := declines_param hship h hblock (hne hblock)
    exact ⟨_, c₁, hpass⟩
  | true =>
    cases hcall : cmd.call with
    | kafkaListenerBlock =>
      rw [hcall] at h
      obtain ⟨c₁, hpass, -⟩ := declines_listener hship hcall hs.inv.depth h
      exact ⟨_, c₁, hpass⟩
    | httpKafkaBlock =>
      rw [hcall] at h
      obtain ⟨-, c₁, hpass, -⟩ :=
        declines_httpKafka hship hcall hs.registered.unregistered_httpKafka h
      exact ⟨_, c₁, hpass⟩
    | httpKafkaConfig | kafkaListenerConfig | timerExec | kafkaListenerExec =>
      rw [hcall] at hblock
      cases hblock
    | _ =>
      rw [hcall] at h
      cases h

/-- What has been handed on by a command that passes. -/
lemma Reaches.of_pass (hmods : ∀ m ∈ mods, m ∈ shippedMods) {st : Status} {m : ModId}
    {cmd : FsCmd Callback} {first first₁ : Bool} {c₁ : Engine}
    (hs : Settled (shippedEnv mods lib junk) bs c)
    (hc : Tried (shippedEnv mods lib junk) c st m cmd)
    (hroom : cmd.isParam = false → c.Room)
    (hplace : c.pathInPlace (shippedEnv mods lib junk) st)
    (hpass : tryCmd (shippedEnv mods lib junk) c m cmd st first = .error (.pass first₁ c₁)) :
    Reaches (shippedEnv mods lib junk) bs c c₁ := by
  have hpost := try_post hs.inv hc hroom first
  rw [tryCmd] at hpass
  rw [hpass] at hpost
  have hpassed : Passed (shippedEnv mods lib junk) c bs st c₁ := hpost
  have hstay := hpassed.stayed hs.inv
  have hheap := hpassed.heap_eq hmods hs.inv hs.typed hplace
  obtain ⟨-, hctxs, hlog⟩ := hpassed.registry hmods hs.typed hs.registered
  exact ⟨⟨hpassed.inv hs.inv, hheap ▸ hs.typed, hpassed.registered hmods hs.typed hs.registered⟩,
    hstay.tokens, hheap, hlog, hstay.count, hstay.keeps_room,
    fun ho => ho.congr hctxs hlog (.of_shape (by rw [hheap]))⟩

/-- Whatever module comes first, the loops come to the command of the directive. -/
lemma exists_tryAll (hmods : mods.Perm shippedMods) (hs : Settled (shippedEnv mods lib junk) bs c)
    (hl : l.Names k) (hstands : k.Stands (innermost bs)) (hroom : k.block = true → c.Room)
    (hname : c.tokens.nth 0 = some l.name) :
    ∃ c₁ first rest, Reaches (shippedEnv mods lib junk) bs c c₁ ∧ (k.rival = none → rest = []) ∧
      fsConfHandle (shippedEnv mods lib junk) c k.ending
        = tryAll (shippedEnv mods lib junk) l.name k.ending ((k.owner, k.cmd) :: rest) first
          c₁ := by
  rw [fsConfHandle_of_name hname k.ending_ne, tryAll_fitting]
  generalize (shippedEnv mods lib junk).first c = first
  have hmem : (k.owner, k.cmd) ∈ (shippedEnv mods lib junk).fitting l.name k.ending :=
    fitting_cmd hmods hl
  rcases fitting_cases hmods hl.isToken k.ending rfl with hfit | ⟨p, hfit⟩ | ⟨p, q, hfit, hrival⟩
  · rw [hfit] at hmem
    cases hmem
  · rw [hfit] at hmem ⊢
    obtain rfl := List.mem_singleton.mp hmem
    exact ⟨c, first, [], .refl hs, fun _ => rfl, rfl⟩
  · rw [hfit] at hmem
    rcases List.mem_pair.mp hmem with rfl | rfl
    · -- the rival is not reached
      rw [hfit]
      refine ⟨c, first, [q], .refl hs, fun hnone => ?_, rfl⟩
      rw [Callback.cmd_call, hnone] at hrival
      cases hrival
    · -- the rival comes first, and declines
      have hp : p ∈ (shippedEnv mods lib junk).fitting l.name k.ending := by simp [hfit]
      obtain ⟨hcand, hmatch⟩ := Env.mem_fitting.mp hp
      have hship := shippedCmd_of_mem_fitting (mem_shipped_of_perm hmods) hp
      rw [Callback.cmd_call] at hrival
      have hdecline := rival_declines hs.inv.kept hs.typed hstands (Callback.rival_symm hrival)
      have hsame := rival_block hrival
      have hne : p.2.call.block = false → c.stMod ≠ [] := by
        intro hblock
        rcases hstands with ⟨-, hinner⟩ | hopens
        · have htop := topMod_of_typed hs.inv.kept hs.typed
          rw [hinner] at htop
          exact stMod_ne_nil htop
        · rw [← hsame, Callback.block_of_opensIn hopens] at hblock
          cases hblock
      obtain ⟨first₁, c₁, hpass⟩ := tryCmd_declines hs hship hdecline hne k.ending first
      have hpushes : p.2.isParam = false → c.Room := by
        intro hparam
        apply hroom
        rw [hsame]
        by_contra hblock
        rw [Bool.not_eq_true] at hblock
        rw [FsCmd.isParam, hship.child, hship.block, hblock, rival_child hrival hblock] at hparam
        cases hparam
      rw [hfit, tryAll_cons, if_pos hmatch, hpass]
      exact ⟨c₁, first₁, [], .of_pass (mem_shipped_of_perm hmods) hs ⟨hcand, _, hname, hmatch⟩
        hpushes (pathInPlace_of_stands hmods hl hs.inv.kept hname hstands) hpass, fun _ => rfl, rfl⟩

end Folksong
