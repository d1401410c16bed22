import Folksong.Script.Text

/-!
# What is accepted is a script

`Nests` says which directives can follow each other, on the commands of the open blocks alone. A
sequence of these from top level back to top level is a script, read in one way from its end. The
engine accepts only such directives, apart from those that a callback with too few tests lets
through.
-/

namespace Folksong

/-! ### Nesting -/

/-- The directive stands where it belongs inside the blocks `ks`, and leaves `ks'` open. -/
inductive Nests : List Callback → Status × List FsStr → List Callback → Prop where
  | param {ks k} {l : Line} : l.Names k → k.isParam = true → ks.head? = some k.place →
      Nests ks (.ok, l.words) ks
  | block {ks k} {l : Line} : l.Names k → k.opensIn ks.head? = true →
      Nests ks (.blockStart, l.words) (k :: ks)
  | close {ks k left} : Nests (k :: ks) (.blockEnd, left) ks

/-- The directives lead from the open blocks `ks` to `ks'`. -/
inductive NestsAll : List Callback → List (Status × List FsStr) → List Callback → Prop where
  | nil {ks} : NestsAll ks [] ks
  | cons {ks ks₁ ks' d ds} : Nests ks d ks₁ → NestsAll ks₁ ds ks' → NestsAll ks (d :: ds) ks'

/-- Scripts between the closing braces of the open blocks, from the innermost one on. -/
def Unwinds : List Callback → List (Status × List FsStr) → Prop
  | [], ds => ∃ s : Script, s.Placed none ∧ s.directives = ds
  | k :: ks, ds => ∃ (s : Script) (left : List FsStr) (rest : List (Status × List FsStr)),
      s.Placed (some k) ∧ ds = s.directives ++ (.blockEnd, left) :: rest ∧ Unwinds ks rest

/-- What stands before the first closing brace is a script, whatever blocks are open. -/
lemma Unwinds.front {ks : List Callback} {ds : List (Status × List FsStr)} (h : Unwinds ks ds) :
    ∃ (s : Script) (rest : List (Status × List FsStr)), s.Placed ks.head? ∧
      ds = s.directives ++ rest ∧
      ∀ s' : Script, s'.Placed ks.head? → Unwinds ks (s'.directives ++ rest) := by
  cases ks with
  | nil =>
    obtain ⟨s, hplaced, rfl⟩ := h
    exact ⟨s, [], hplaced, (List.append_nil _).symm, fun s' h => ⟨s', h, (List.append_nil _).symm⟩⟩
  | cons k ks =>
    obtain ⟨s, left, rest, hplaced, rfl, hrest⟩ := h
    exact ⟨s, _, hplaced, rfl, fun s' h => ⟨s', left, rest, h, rfl, hrest⟩⟩

/-- Directives that come back to top level are read from their end. -/
lemma NestsAll.unwinds {ks ks' : List Callback} {ds : List (Status × List FsStr)}
    (h : NestsAll ks ds ks') (htop : ks' = []) : Unwinds ks ds := by
  induction h with
  | nil =>
    subst htop
    exact ⟨.nil, trivial, rfl⟩
  | @cons ks ks₁ ks' d ds hd _ ih =>
    have hunwinds := ih htop
    cases hd with
    | @param _ k l hl hparam hplace =>
      obtain ⟨s, rest, hplaced, rfl, hfront⟩ := hunwinds.front
      exact hfront (.param k l s) ⟨⟨hl, hparam, hplace⟩, hplaced⟩
    | @block _ k l hl hopens =>
      obtain ⟨body, left, ds, hbody, rfl, hunwinds⟩ := hunwinds
      obtain ⟨s, rest, hplaced, rfl, hfront⟩ := hunwinds.front
      have h := hfront (.block k l body left s) ⟨⟨hl, hopens⟩, hbody, hplaced⟩
      rwa [Script.directives, List.cons_append, List.append_assoc] at h
    | @close _ k left => exact ⟨.nil, left, ds, trivial, rfl, hunwinds⟩

/-- A script leads back to the blocks around it. -/
lemma Script.nestsAll (s : Script) :
    ∀ ks : List Callback, s.Placed ks.head? → ∀ {ds ks'}, NestsAll ks ds ks' →
      NestsAll ks (s.directives ++ ds) ks' := by
  induction s with
  | nil => exact fun _ _ _ _ h => h
  | param k l rest ih =>
    intro ks ⟨⟨hl, hparam, hplace⟩, hplaced⟩ ds ks' h
    exact .cons (.param hl hparam hplace) (ih ks hplaced h)
  | block k l body left rest ihbody ihrest =>
    intro ks ⟨⟨hl, hopens⟩, hbody, hrest⟩ ds ks' h
    rw [Script.directives, List.cons_append, List.append_assoc]
    exact .cons (.block hl hopens) (ihbody (k :: ks) hbody (.cons .close (ihrest ks hrest h)))

/-- Directives come back to top level exactly when they are those of a script. -/
lemma nestsAll_iff_script {ds : List (Status × List FsStr)} :
    NestsAll [] ds [] ↔ ∃ s : Script, s.Placed none ∧ s.directives = ds := by
  constructor
  · exact fun h => h.unwinds rfl
  · rintro ⟨s, hplaced, rfl⟩
    have h := s.nestsAll [] hplaced .nil
    rwa [List.append_nil] at h

/-! ### What the callbacks do not test -/

/-- The first of the words begins with that of the command. -/
def Begins : List FsStr → Callback → Prop
  | [], _ => False
  | name :: _, k => k.cmd.token.text <+: name.cstr

instance : (ts : List FsStr) → (k : Callback) → Decidable (Begins ts k)
  | [], _ => .isFalse id
  | name :: _, k => inferInstanceAs (Decidable (k.cmd.token.text <+: name.cstr))

/-- Behind `n` blocks and inside the blocks `ks` the directive has a name, it moves no context of an
open block, `fs_version_art` and `pass_path` do not work on objects of another type, and `exec` does
not read a word that it does not have. -/
structure Tame (ks : List Callback) (n : Nat) (d : Status × List FsStr) : Prop where
  named : d.1 ≠ .blockEnd → d.2 ≠ []
  room : d.1 = .blockStart → ks ≠ [] → ∀ j, n ≠ 8 * 2 ^ j
  art : d.1 = .ok → Begins d.2 .versionArt → ks.head? = some .versionInit
  path : d.1 = .ok → Begins d.2 .httpProxyPassPath → ks.tail.head? = some .httpBlock →
    ks.head? = some .httpProxyBlock
  exec : d.1 = .ok → Begins d.2 .timerExec → 2 ≤ d.2.length

/-- The number of blocks behind a directive that ends with `st`. -/
def Status.count (st : Status) (n : Nat) : Nat := if st = .blockStart then n + 1 else n

/-- All directives are tame that stand where they belong, and so is the first that does not. -/
def TameAll : List Callback → Nat → List (Status × List FsStr) → Prop
  | _, _, [] => True
  | ks, n, d :: ds => Tame ks n d ∧ ∀ ks', Nests ks d ks' → TameAll ks' (d.1.count n) ds

/-- Directives without the two parameters, all of which have their words, are tame as long as there
are not more than eight blocks. -/
def Plain (d : Status × List FsStr) : Prop :=
  (d.1 ≠ .blockEnd → d.2 ≠ []) ∧ ¬ Begins d.2 .versionArt ∧ ¬ Begins d.2 .httpProxyPassPath ∧
    (Begins d.2 .timerExec → 2 ≤ d.2.length)

instance : DecidablePred Plain := fun _ => inferInstanceAs (Decidable (_ ∧ _))

lemma tameAll_of_plain {ds : List (Status × List FsStr)} (hplain : ∀ d ∈ ds, Plain d) :
    ∀ {ks : List Callback} {n : Nat}, n + ds.countP (fun d => d.1 == .blockStart) ≤ 8 →
      TameAll ks n ds := by
  induction ds with
  | nil => exact fun _ => trivial
  | cons d ds ih =>
    intro ks n hn
    obtain ⟨⟨hnamed, hart, hpath, hexec⟩, hds⟩ := List.forall_mem_cons.mp hplain
    have hcount : d.1.count n + ds.countP (fun d => d.1 == .blockStart)
        = n + (d :: ds).countP (fun d => d.1 == .blockStart) := by
      rw [Status.count, List.countP_cons]
      by_cases hblock : d.1 = .blockStart
      · simp only [hblock, if_true, beq_self_eq_true]
        omega
      · simp [hblock]
    refine ⟨⟨hnamed, ?_, fun _ h => absurd h hart, fun _ h => absurd h hpath, fun _ => hexec⟩,
      fun ks' _ => ih hds (hcount.trans_le hn)⟩
    intro hblock _ j heq
    have hpow : 0 < 2 ^ j := Nat.two_pow_pos j
    rw [List.countP_cons_of_pos (by simpa using hblock)] at hn
    omega

/-- A tame script finds room for its blocks. -/
lemma Script.roomy_of_tame (s : Script) :
    ∀ (ks : List Callback) {n : Nat} {ds : List (Status × List FsStr)}, s.Placed ks.head? →
      TameAll ks n (s.directives ++ ds) →
      s.Roomy (!ks.isEmpty) n ∧ TameAll ks (n + s.blocks) ds := by
  induction s with
  | nil => exact fun _ _ _ _ h => ⟨trivial, h⟩
  | param k l rest ih =>
    rintro ks n ds ⟨⟨hl, hparam, hplace⟩, hplaced⟩ ⟨-, h⟩
    exact ih ks hplaced (h ks (.param hl hparam hplace))
  | block k l body left rest ihbody ihrest =>
    intro ks n ds ⟨⟨hl, hopens⟩, hbody, hrest⟩ h
    rw [Script.directives, List.cons_append, List.append_assoc] at h
    obtain ⟨htame, h⟩ := h
    obtain ⟨hroomy, htail⟩ := ihbody (k :: ks) hbody (h _ (.block hl hopens))
    obtain ⟨hroomy', htail'⟩ := ihrest ks hrest (htail.2 ks .close)
    refine ⟨⟨fun hinside => ?_, hroomy, hroomy'⟩, ?_⟩
    · refine htame.room rfl fun hnil => ?_
      rw [hnil] at hinside
      cases hinside
    · have hcount : n + (Script.block k l body left rest).blocks
          = n + 1 + body.blocks + rest.blocks := by
        rw [Script.blocks]
        ring
      rw [hcount]
      exact htail'

/-! ### What the engine accepts -/

/-- The commands of the open blocks. -/
def callsOf (bs : List (Opened ModId Callback)) : List Callback := bs.map fun b => b.cmd.call

lemma callsOf_head? (bs : List (Opened ModId Callback)) : (callsOf bs).head? = innermost bs :=
  List.head?_map

section

variable {mods : List (FsMod ModId Callback)} {lib : Lib} {junk : Junk} {c c' : Engine}
  {bs bs' : List (Opened ModId Callback)} {b : Opened ModId Callback} {n : Nat} {k : Callback}
  {st : Status} {ts : List FsStr} {m : ModId} {cmd : FsCmd Callback}

/-- The words of a directive whose first word begins with that of the command. -/
lemma Tried.line (hmods : mods.Perm shippedMods) (htokens : c.tokens.contents = ts.map some)
    (hwords : ∀ t ∈ ts, t.IsToken) (hne : ts ≠ [])
    (h : Tried (shippedEnv mods lib junk) c st m cmd) :
    ∃ l : Line, ts = l.words ∧ l.name.IsToken ∧ m = cmd.call.owner ∧ cmd = cmd.call.cmd ∧
      cmd.call.cmd.token.text <+: l.name.cstr := by
  obtain ⟨name, hname, hmatch⟩ := h.named
  have hmem := mem_shipped_of_perm hmods
  have hcmd : (m, cmd) = (cmd.call.owner, cmd.call.cmd) :=
    eq_of_call_eq hmem h.mem (mem_candidates hmods cmd.call) cmd.call.cmd_call.symm
  cases ts with
  | nil => exact absurd rfl hne
  | cons t ts =>
    obtain rfl : t = name := by
      have ht : c.tokens.nth 0 = some t := FsArr.nth_of_map htokens rfl
      exact Option.some.inj (ht.symm.trans hname)
    have htoken := hwords t List.mem_cons_self
    refine ⟨⟨t, ts⟩, rfl, htoken, congrArg Prod.fst hcmd, congrArg Prod.snd hcmd, ?_⟩
    rw [show cmd.call.cmd = cmd from (congrArg Prod.snd hcmd).symm]
    exact ((matches_iff_begins hmem htoken h.mem).mp hmatch).1

lemma Tried.of_tries (h : c.tries (shippedEnv mods lib junk) st k) :
    ∃ m cmd, Tried (shippedEnv mods lib junk) c st m cmd ∧ cmd.call = k := by
  rw [Conf.tries] at h
  cases hname : c.tokens.nth 0 with
  | none =>
    rw [hname] at h
    cases h
  | some name =>
    rw [hname, Option.any_some, List.any_eq_true] at h
    obtain ⟨p, hp, htest⟩ := h
    rw [Bool.and_eq_true, beq_iff_eq] at htest
    exact ⟨p.1, p.2, ⟨hp, name, hname, htest.2⟩, htest.1⟩

/-- How a directive ends that the command fits. -/
lemma Tried.ending (h : Tried (shippedEnv mods lib junk) c st m cmd) :
    st = if cmd.block then .blockStart else .ok := by
  obtain ⟨name, -, hmatch⟩ := h.named
  rw [FsCmd.matches, Bool.and_eq_true] at hmatch
  exact FsCmd.fits_eq hmatch.2

lemma begins_of_tries (hmods : mods.Perm shippedMods) (htokens : c.tokens.contents = ts.map some)
    (hwords : ∀ t ∈ ts, t.IsToken) (hne : ts ≠ []) (hparam : k.block = false)
    (h : c.tries (shippedEnv mods lib junk) st k) : st = .ok ∧ Begins ts k := by
  obtain ⟨m, cmd, htried, rfl⟩ := Tried.of_tries h
  obtain ⟨l, rfl, -, -, hcmd, hbegins⟩ := htried.line hmods htokens hwords hne
  refine ⟨?_, hbegins⟩
  rw [htried.ending, hcmd, cmd.call.cmd_block, hparam]
  rfl

/-- A block of the http module is an http block. -/
lemma TypedStack.http_call {h : Heap} (ht : TypedStack h bs)
    (hmod : bs.head?.map Opened.mod = some .http) : (callsOf bs).head? = some .httpBlock := by
  cases bs with
  | nil => cases hmod
  | cons b bs => exact congrArg some (ht.call_of_mod rfl (Option.some.inj hmod) (.inr (.inr rfl)))

lemma TypedStack.tails {h : Heap} (ht : TypedStack h bs) : TypedStack h bs.tail := by
  cases bs with
  | nil => exact ht
  | cons b bs => exact ht.tail

/-- A tame directive uses the two parameters in their places. -/
lemma Tame.inPlace (htame : Tame (callsOf bs) n (st, ts)) (hmods : mods.Perm shippedMods)
    (hs : Settled (shippedEnv mods lib junk) bs c) (htokens : c.tokens.contents = ts.map some)
    (hwords : ∀ t ∈ ts, t.IsToken) (hst : st ≠ .blockEnd) :
    c.pathInPlace (shippedEnv mods lib junk) st ∧ c.artInPlace (shippedEnv mods lib junk) st := by
  have hne := htame.named hst
  constructor
  · rw [Conf.pathInPlace, Bool.or_eq_true, Bool.or_eq_true]
    by_cases htries : c.tries (shippedEnv mods lib junk) st .httpProxyPassPath
    · obtain ⟨hok, hbegins⟩ := begins_of_tries hmods htokens hwords hne rfl htries
      by_cases hsub : subtopMod c = some .http
      · right
        rw [hs.inv.kept.subtopMod] at hsub
        have htail : (callsOf bs).tail.head? = some .httpBlock := by
          rw [callsOf, ← List.map_tail]
          exact hs.typed.tails.http_call hsub
        rw [beq_iff_eq, hs.inv.kept.topCmd]
        exact (callsOf_head? bs).symm.trans (htame.path hok hbegins htail)
      · left
        right
        simpa using hsub
    · left
      left
      simp [htries]
  · rw [Conf.artInPlace, Bool.or_eq_true]
    by_cases htries : c.tries (shippedEnv mods lib junk) st .versionArt
    · right
      obtain ⟨hok, hbegins⟩ := begins_of_tries hmods htokens hwords hne rfl htries
      rw [beq_iff_eq, topMod_of_typed hs.inv.kept hs.typed, ← callsOf_head?,
        htame.art hok hbegins]
      rfl
    · left
      simp [htries]

/-- A tame directive finds room for its block. -/
lemma Tame.keepsRoom (htame : Tame (callsOf bs) n (st, ts)) (hmods : mods.Perm shippedMods)
    (hk : c.Kept (shippedEnv mods lib junk) bs) (hcount : c.ctx.eleCount = n) (hdoubled : c.Doubled)
    (hpushes : c.pushes (shippedEnv mods lib junk) st) : c.Room := by
  cases bs with
  | nil => exact .inl (List.forall₂_nil_right_iff.mp hk)
  | cons b bs =>
    right
    refine hdoubled.not_full ?_
    rw [hcount]
    refine htame.room ?_ (List.cons_ne_nil _ _)
    -- the command that pushes opens a block
    rw [Conf.pushes, Bool.and_eq_true] at hpushes
    obtain ⟨-, hany⟩ := hpushes
    cases hname : c.tokens.nth 0 with
    | none =>
      rw [hname] at hany
      cases hany
    | some name =>
      rw [hname, Option.any_some, List.any_eq_true] at hany
      obtain ⟨p, hp, htest⟩ := hany
      rw [Bool.and_eq_true, Bool.not_eq_true'] at htest
      have htried : Tried (shippedEnv mods lib junk) c st p.1 p.2 := ⟨hp, name, hname, htest.1⟩
      have hmem := mem_shipped_of_perm hmods
      rw [htried.ending, (htried.shipped hmem).block, htried.opens hmem htest.2]
      rfl

lemma Callback.exec_text (h : k = .timerExec ∨ k = .kafkaListenerExec) :
    k.cmd.token.text = Callback.timerExec.cmd.token.text := by
  rcases h with rfl | rfl <;> rfl

/-- The line of an accepted directive names its command. -/
lemma Tame.names {ks : List Callback} {l : Line} (htame : Tame ks n (st, l.words))
    (htoken : l.name.IsToken) (hbegins : k.cmd.token.text <+: l.name.cstr)
    (hst : k.block = false → st = .ok) : l.Names k := by
  refine ⟨htoken, hbegins, fun hexec hnil => ?_⟩
  have hblock : k.block = false := by
    rcases hexec with rfl | rfl <;> rfl
  rw [k.exec_text hexec] at hbegins
  have hlength := htame.exec (hst hblock) hbegins
  rw [Line.words, hnil] at hlength
  exact absurd hlength (by simp)

/-- An accepted block stands where it belongs. -/
lemma Entry.opensIn (hmods : ∀ m ∈ mods, m ∈ shippedMods)
    (hI : c.Inv (shippedEnv mods lib junk) bs) (ht : TypedStack c.heap bs)
    (hc : Tried (shippedEnv mods lib junk) c st m cmd) (hblock : cmd.block = true) {p : Ptr}
    {first : Bool} {c₁ : Engine} (hE : Entry (shippedEnv mods lib junk) c bs m cmd p first c₁)
    {h : Heap} (hcall : shippedCall lib cmd.call c₁ p = some (.ok, h)) :
    cmd.call.opensIn (callsOf bs).head? = true := by
  have hship := hc.shipped hmods
  have hparam : cmd.isParam = false := by simp [FsCmd.isParam, hblock]
  obtain ⟨happ, -, -⟩ := (hE.effect hmods ht hc hparam _ _ hcall).ok rfl
  have hkept := hE.entered.keeps
  have hsub := hkept.subtopMod
  have hsubcmd := hkept.subtopCmd
  rw [List.tail_cons] at hsub hsubcmd
  rw [hship.block] at hblock
  cases hk : cmd.call with
  | versionInit | timerBlock | httpBlock => rfl
  | kafkaListenerBlock =>
    -- its `init_mod` passes inside another block
    have hnil : bs = [] := by
      cases hE with
      | child hch =>
        rw [hship.child, hk] at hch
        cases hch
      | own _ hinit =>
        have hm : m = .kafkaListener := by rw [← hship.owner, hk]; rfl
        subst hm
        by_contra hne
        have hdepth : (c.stPush .kafkaListener cmd).stDepth ≠ 1 := by
          have hlen := hI.kept.length_eq
          rw [Conf.stPush, hI.depth, hlen]
          simpa using hne
        cases hinit with
        | absent hnone => cases hnone
        | stored hf hcall | unset hf hcall =>
          cases hf
          rw [fsModKafkaListenerInitMod, if_neg (not_not_intro hk), if_pos hdepth] at hcall
          cases hcall
    rw [hnil]
    rfl
  | httpKafkaBlock | httpProxyBlock =>
    rw [hk] at happ
    have hmod := happ.1
    rw [Callback.guard, hsub] at hmod
    rw [ht.http_call hmod]
    rfl
  | kafkaListenerTopic =>
    rw [hk] at happ
    have hcmd := happ.2
    simp only [hsubcmd] at hcmd
    rw [callsOf_head?, innermost, hcmd]
    rfl
  | _ =>
    rw [hk] at hblock
    cases hblock

/-- Commands that pass leave no context slot. -/
lemma PassedAll.count (h : PassedAll (shippedEnv mods lib junk) bs st c c')
    (hI : c.Inv (shippedEnv mods lib junk) bs) : c'.ctx.eleCount = c.ctx.eleCount := by
  induction h with
  | refl => rfl
  | tail h hp ih => exact (hp.stayed (PassedAll.inv h hI)).count.trans ih

/-- The engine between two directives, behind `n` blocks of which `bs` are open. -/
structure Between (env : Env ModId Callback Heap) (bs : List (Opened ModId Callback)) (n : Nat)
    (c : Engine) : Prop where
  settled : Settled env bs c
  count : c.ctx.eleCount = n
  doubled : c.Doubled

/-- A tame directive that is accepted stands where it belongs. -/
lemma Between.step (hmods : mods.Perm shippedMods)
    (hb : Between (shippedEnv mods lib junk) bs n c) (htame : Tame (callsOf bs) n (st, ts))
    (hwords : ∀ t ∈ ts, t.IsToken)
    (hok : fsConfHandle (shippedEnv mods lib junk) (c.taken st ts) st = .ok c') :
    ∃ bs', Between (shippedEnv mods lib junk) bs' (st.count n) c' ∧
      Nests (callsOf bs) (st, ts) (callsOf bs') := by
  have hmem := mem_shipped_of_perm hmods
  have hs : Settled (shippedEnv mods lib junk) bs (c.taken st ts) := hb.settled.take _
  have htokens : (c.taken st ts).tokens.contents = ts.map some :=
    FsArr.refill_contents c.tokens ts
  have hplaces : (c.taken st ts).pathInPlace (shippedEnv mods lib junk) st ∧
      (st ≠ .blockEnd → (c.taken st ts).artInPlace (shippedEnv mods lib junk) st) := by
    by_cases hst : st = .blockEnd
    · subst hst
      exact ⟨pathInPlace_of_close _, fun h => absurd rfl h⟩
    · have h := htame.inPlace hmods hs htokens hwords hst
      exact ⟨h.1, fun _ => h.2⟩
  obtain ⟨hpath, hart⟩ := hplaces
  have hroom := htame.keepsRoom hmods hs.inv.kept hb.count (c := c.taken st ts) hb.doubled
  have hdoubled : c'.Doubled := handle_doubled (c := c.taken st ts) hb.doubled hok
  obtain ⟨c₁, bs', hall, hacc⟩ := handle_cases hs.inv hroom hok
  obtain ⟨hI₁, hheap, hpath₁⟩ := PassedAll.untouched hmem hs.inv hs.typed hpath hall
  have ht₁ : TypedStack c₁.heap bs := hheap ▸ hs.typed
  obtain ⟨htokens₁, hstMod₁⟩ := PassedAll.stayed hall hs.inv
  have hwords₁ : c₁.tokens.contents = ts.map some := htokens₁ ▸ htokens
  have hcount₁ : c₁.ctx.eleCount = n := (PassedAll.count hall hs.inv).trans hb.count
  have hsettled : Settled (shippedEnv mods lib junk) bs' c' :=
    ⟨hacc.inv hI₁, hacc.typed hmem hI₁ ht₁ hpath₁,
      hacc.registered hmem (PassedAll.registered hmem hs.inv hs.typed hpath hs.registered hall)⟩
  cases hacc with
  | @param m cmd b h hc hp hhead hcall =>
    have he := param_effect hmem hI₁ ht₁ hpath₁ hc hp hhead _ _ hcall
    obtain ⟨l, rfl, htoken, -, hcmd, hbegins⟩ :=
      hc.line hmods hwords₁ hwords (htame.named (by simp))
    obtain ⟨hchild, hblock⟩ := hc.param hmem hp
    cases bs with
    | nil => cases hhead
    | cons b' bs =>
      obtain rfl : b' = b := Option.some.inj hhead
      have hart₁ : c₁.artInPlace (shippedEnv mods lib junk) .ok := by
        simpa only [Conf.artInPlace, Conf.tries, topMod, htokens₁, hstMod₁] using hart (by simp)
      have hplace := ht₁.place hI₁.kept hchild hblock (he.ok rfl).1
        (topMod_of_artInPlace hart₁ hc) (topCmd_of_pathInPlace hpath₁ hc)
      refine ⟨_, ⟨hsettled, hcount₁, hdoubled⟩,
        .param (htame.names htoken hbegins fun _ => rfl) ?_ (congrArg some hplace)⟩
      rw [Callback.isParam, hchild, hblock]
      rfl
  | @block m cmd p first c₂ h hc hblock hE hcall =>
    obtain ⟨l, rfl, htoken, -, hcmd, hbegins⟩ :=
      hc.line hmods hwords₁ hwords (htame.named (by simp))
    have hcall_block : cmd.call.block = true := (hc.shipped hmem).block.symm.trans hblock
    refine ⟨_, ⟨hsettled, ?_, hdoubled⟩, .block (htame.names htoken hbegins fun hno => ?_)
      (hE.opensIn hmem hI₁ ht₁ hc hblock hcall)⟩
    · exact hE.entered.count.trans (congrArg (· + 1) hcount₁)
    · rw [hno] at hcall_block
      cases hcall_block
  | single hc hblock hchild => exact (hc.not_single hmem hblock hchild).elim
  | closeChild hbs hch =>
    subst hbs
    exact ⟨_, ⟨hsettled, hcount₁, hdoubled⟩, .close⟩
  | closeOwn hbs hch hcomp =>
    subst hbs
    obtain ⟨heap, rfl⟩ := runCompleted_eq hcomp
    exact ⟨_, ⟨hsettled, hcount₁, hdoubled⟩, .close⟩

/-- Tame directives that are all accepted stand where they belong. -/
lemma Between.run (hmods : mods.Perm shippedMods) {ds : List (Status × List FsStr)}
    (hwords : ∀ d ∈ ds, ∀ t ∈ d.2, t.IsToken) :
    ∀ {bs : List (Opened ModId Callback)} {n : Nat} {c : Engine},
      Between (shippedEnv mods lib junk) bs n c → TameAll (callsOf bs) n ds →
      handleWords (shippedEnv mods lib junk) c ds = .ok c' →
      ∃ bs' n', Between (shippedEnv mods lib junk) bs' n' c' ∧
        NestsAll (callsOf bs) ds (callsOf bs') := by
  induction ds with
  | nil =>
    intro bs n c hb _ hok
    cases hok
    exact ⟨bs, n, hb, .nil⟩
  | cons d ds ih =>
    intro bs n c hb ⟨htame, hrest⟩ hok
    obtain ⟨hd, hds⟩ := List.forall_mem_cons.mp hwords
    rw [handleWords_cons] at hok
    cases hstep : fsConfHandle (shippedEnv mods lib junk) (c.taken d.1 d.2) d.1 with
    | error e =>
      rw [hstep] at hok
      cases hok
    | ok c₁ =>
      rw [hstep] at hok
      obtain ⟨bs₁, hb₁, hnests⟩ := hb.step hmods htame hd hstep
      obtain ⟨bs', n', hb', hall⟩ := ih hds hb₁ (hrest _ hnests) hok
      exact ⟨bs', n', hb', .cons hnests hall⟩

lemma between_start (env : Env ModId Callback Heap) (tokens : FsArr FsStr) :
    Between env [] 0 (Conf.start tokens ⟨[], []⟩) :=
  ⟨settled_start env tokens _, rfl, doubled_start tokens _⟩

lemma textDirectives_isToken (text : List UInt8) :
    ∀ d ∈ textDirectives text, ∀ t ∈ d.2, t.IsToken := by
  intro d hd t ht
  obtain ⟨r, -, rfl⟩ := List.mem_map.mp hd
  obtain ⟨w, -, rfl⟩ := List.mem_map.mp ht
  exact Nat.lt_succ_of_le (decode_length_le _ _)

end

/-- What the script comes to. -/
def mixedHeap : Heap := ((mixedScript.eval .succeeding (fun _ _ => true) .null ⟨[], []⟩).toOption).getD
  ⟨[], []⟩

lemma eval_mixedScript :
    mixedScript.eval .succeeding (fun _ _ => true) .null ⟨[], []⟩ = .ok mixedHeap := rfl

end Folksong
