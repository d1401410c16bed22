import Folksong.Conf.Depth
import Folksong.Mod.Typing

/-!
# Which shipped commands claim the same word

A command fits a directive when its token begins the first word. No token of a shipped command
begins another one of the same kind, but three words belong to two modules each.
-/

namespace Folksong

/-- The other command with the same token. -/
def Callback.rival : Callback → Option Callback
  | .httpKafkaBlock => some .kafkaListenerBlock
  | .kafkaListenerBlock => some .httpKafkaBlock
  | .httpKafkaConfig => some .kafkaListenerConfig
  | .kafkaListenerConfig => some .httpKafkaConfig
  | .timerExec => some .kafkaListenerExec
  | .kafkaListenerExec => some .timerExec
  | _ => none

lemma Callback.rival_symm {k k' : Callback} (h : k.rival = some k') : k'.rival = some k := by
  cases k with
  | httpKafkaBlock | kafkaListenerBlock | httpKafkaConfig | kafkaListenerConfig | timerExec
  | kafkaListenerExec =>
    cases h
    rfl
  | _ => cases h

section

variable {mods : List (FsMod ModId Callback)} {lib : Lib} {junk : Junk}

lemma mem_commands_of_mem_candidates (hmods : ∀ m ∈ mods, m ∈ shippedMods)
    {p : ModId × FsCmd Callback} (hp : p ∈ (shippedEnv mods lib junk).candidates) :
    ∃ m ∈ shippedMods, p.1 = m.id ∧ p.2 ∈ m.commands := by
  obtain ⟨m, hm, hcmd⟩ := List.mem_flatMap.mp hp
  obtain ⟨cmd, hmem, rfl⟩ := List.mem_map.mp hcmd
  exact ⟨m, hmods m hm, rfl, List.takeWhile_subset _ hmem⟩

lemma isLiteral_of_mem_candidates (hmods : ∀ m ∈ mods, m ∈ shippedMods)
    {p : ModId × FsCmd Callback} (hp : p ∈ (shippedEnv mods lib junk).candidates) :
    p.2.token.IsLiteral := by
  obtain ⟨m, hm, -, hcmd⟩ := mem_commands_of_mem_candidates hmods hp
  exact isLiteral_of_mem_shipped hm hcmd

/-- A callback belongs to one command only. -/
lemma eq_of_call_eq (hmods : ∀ m ∈ mods, m ∈ shippedMods) {p q : ModId × FsCmd Callback}
    (hp : p ∈ (shippedEnv mods lib junk).candidates)
    (hq : q ∈ (shippedEnv mods lib junk).candidates) (h : p.2.call = q.2.call) : p = q := by
  have hall : ∀ m ∈ shippedMods, ∀ cmd ∈ m.commands, ∀ m' ∈ shippedMods, ∀ cmd' ∈ m'.commands,
      cmd.call = cmd'.call → m.id = m'.id ∧ cmd = cmd' := by decide +kernel
  obtain ⟨m, hm, hid, hcmd⟩ := mem_commands_of_mem_candidates hmods hp
  obtain ⟨m', hm', hid', hcmd'⟩ := mem_commands_of_mem_candidates hmods hq
  obtain ⟨hids, hcmds⟩ := hall m hm p.2 hcmd m' hm' q.2 hcmd' h
  exact Prod.ext (by rw [hid, hid', hids]) hcmds

/-- Two commands of one kind whose tokens begin the same word are rivals. -/
lemma rival_of_begins (hmods : ∀ m ∈ mods, m ∈ shippedMods) {p q : ModId × FsCmd Callback}
    (hp : p ∈ (shippedEnv mods lib junk).candidates)
    (hq : q ∈ (shippedEnv mods lib junk).candidates) (hblock : p.2.block = q.2.block)
    (hpre : p.2.token.text <+: q.2.token.text) : p = q ∨ p.2.call.rival = some q.2.call := by
  have hall : ∀ m ∈ shippedMods, ∀ cmd ∈ m.commands, ∀ m' ∈ shippedMods, ∀ cmd' ∈ m'.commands,
      cmd.block = cmd'.block → cmd.token.text <+: cmd'.token.text →
        cmd.call = cmd'.call ∨ cmd.call.rival = some cmd'.call := by decide +kernel
  obtain ⟨m, hm, -, hcmd⟩ := mem_commands_of_mem_candidates hmods hp
  obtain ⟨m', hm', -, hcmd'⟩ := mem_commands_of_mem_candidates hmods hq
  rcases hall m hm p.2 hcmd m' hm' q.2 hcmd' hblock hpre with h | h
  · exact .inl (eq_of_call_eq hmods hp hq h)
  · exact .inr h

variable {name : FsStr} {st : Status}

/-- A command fits a directive whose name begins with its token. -/
lemma matches_iff_begins (hmods : ∀ m ∈ mods, m ∈ shippedMods) (hname : name.IsToken)
    {p : ModId × FsCmd Callback} (hp : p ∈ (shippedEnv mods lib junk).candidates) :
    p.2.matches name st ↔ p.2.token.text <+: name.cstr ∧ p.2.fits st := by
  rw [FsCmd.matches, Bool.and_eq_true, fsStrCmp_literal (isLiteral_of_mem_candidates hmods hp) hname]

lemma shippedCmd_of_mem_fitting (hmods : ∀ m ∈ mods, m ∈ shippedMods)
    {p : ModId × FsCmd Callback} (hp : p ∈ (shippedEnv mods lib junk).fitting name st) :
    ShippedCmd p.1 p.2 :=
  shippedCmd_of_mem hmods (Env.mem_fitting.mp hp).1

lemma rival_of_matches (hmods : ∀ m ∈ mods, m ∈ shippedMods) (hname : name.IsToken)
    {p q : ModId × FsCmd Callback} (hp : p ∈ (shippedEnv mods lib junk).fitting name st)
    (hq : q ∈ (shippedEnv mods lib junk).fitting name st) :
    p = q ∨ p.2.call.rival = some q.2.call := by
  obtain ⟨hpmem, hpmatch⟩ := Env.mem_fitting.mp hp
  obtain ⟨hqmem, hqmatch⟩ := Env.mem_fitting.mp hq
  rw [matches_iff_begins hmods hname hpmem] at hpmatch
  rw [matches_iff_begins hmods hname hqmem] at hqmatch
  have hblock : p.2.block = q.2.block := by
    have heq := (FsCmd.fits_eq hpmatch.2).symm.trans (FsCmd.fits_eq hqmatch.2)
    cases hpb : p.2.block <;> cases hqb : q.2.block <;> simp [hpb, hqb] at heq <;> rfl
  rcases List.prefix_or_prefix_of_prefix hpmatch.1 hqmatch.1 with hpre | hpre
  · exact rival_of_begins hmods hpmem hqmem hblock hpre
  · rcases rival_of_begins hmods hqmem hpmem hblock.symm hpre with h | h
    · exact .inl h.symm
    · exact .inr (Callback.rival_symm h)

/-- The build chooses the order of the modules only. -/
lemma mem_shipped_of_perm (hmods : mods.Perm shippedMods) : ∀ m ∈ mods, m ∈ shippedMods :=
  fun _ hm => hmods.subset hm

lemma fitting_perm {mods' : List (FsMod ModId Callback)} (hmods : mods.Perm mods') :
    ((shippedEnv mods lib junk).fitting name st).Perm
      ((shippedEnv mods' lib junk).fitting name st) :=
  (hmods.flatMap_right _).filter _

lemma fitting_nodup (hmods : mods.Perm shippedMods) :
    ((shippedEnv mods lib junk).fitting name st).Nodup := by
  have hnodup : (shippedMods.flatMap fun m =>
      (m.commands.takeWhile fun cmd => !cmd.isEnd).map (m.id, ·)).Nodup := by decide +kernel
  rw [(fitting_perm hmods).nodup_iff]
  exact hnodup.filter _

/-- At most two commands fit a directive, and these are rivals. -/
theorem fitting_cases (hmods : mods.Perm shippedMods) (hname : name.IsToken) (st : Status)
    {fitting : List (ModId × FsCmd Callback)}
    (hfitting : (shippedEnv mods lib junk).fitting name st = fitting) :
    fitting = [] ∨ (∃ p, fitting = [p]) ∨
      ∃ p q, fitting = [p, q] ∧ p.2.call.rival = some q.2.call := by
  have hnodup : fitting.Nodup := hfitting ▸ fitting_nodup hmods
  have hmem := mem_shipped_of_perm hmods
  have hrival : ∀ p ∈ fitting, ∀ q ∈ fitting, p = q ∨ p.2.call.rival = some q.2.call := by
    intro p hp q hq
    rw [← hfitting] at hp hq
    exact rival_of_matches hmem hname hp hq
  match fitting with
  | [] => exact .inl rfl
  | [p] => exact .inr (.inl ⟨p, rfl⟩)
  | p :: q :: rest =>
    rw [List.nodup_cons, List.nodup_cons] at hnodup
    obtain ⟨hp, hq, -⟩ := hnodup
    have hpq := (hrival p (by simp) q (by simp)).resolve_left fun h => hp (by simp [h])
    cases rest with
    | nil => exact .inr (.inr ⟨p, q, rfl, hpq⟩)
    | cons r rest =>
      -- a third one would be the rival of the first as well
      have hpr := (hrival p (by simp) r (by simp)).resolve_left fun h => hp (by simp [h])
      have hcall : q.2.call = r.2.call := Option.some.inj (hpq.symm.trans hpr)
      have hqmem : q ∈ (shippedEnv mods lib junk).fitting name st := by simp [hfitting]
      have hrmem : r ∈ (shippedEnv mods lib junk).fitting name st := by simp [hfitting]
      have hqr := eq_of_call_eq hmem (Env.mem_fitting.mp hqmem).1 (Env.mem_fitting.mp hrmem).1 hcall
      exact absurd (by simp [hqr]) hq

/-! ### The block of a kafka listener -/

variable {c : Engine} {m : ModId} {cmd : FsCmd Callback}

/-- It is an own block. -/
lemma ShippedCmd.listener (h : ShippedCmd m cmd) (hcall : cmd.call = .kafkaListenerBlock) :
    m = .kafkaListener ∧ cmd.child = false ∧ cmd.isParam = false := by
  have hchild : cmd.child = false := by
    rw [h.child, hcall]
    rfl
  refine ⟨?_, hchild, ?_⟩
  · rw [← h.owner, hcall]
    rfl
  · rw [FsCmd.isParam, hchild, Bool.false_and]

lemma stDepth_pushed (hlevel : c.Level) (hempty : c.stMod = []) (m : ModId)
    (cmd : FsCmd Callback) : (c.stPush m cmd).stDepth = 1 := by
  have hlen : c.stDepth = c.stMod.length := hlevel
  simp [Conf.stPush, hlen, hempty]

/-- At top level it is set up in the slot just pushed. -/
lemma runInitMod_listener (hcall : cmd.call = .kafkaListenerBlock) (hdepth : c.stDepth = 1) :
    c.runInitMod (shippedEnv mods lib junk) .kafkaListener cmd
      = some (.ok, Conf.emit { c.storeTop (c.heap.alloc (.listener ⟨.null, []⟩)).1 with
          heap := (c.heap.alloc (.listener ⟨.null, []⟩)).2 } (.initMod .kafkaListener .ok)) := by
  simp only [Conf.runInitMod, shippedEnv, shippedMethods, fsModKafkaListenerInitMod, hcall,
    hdepth, ne_eq, not_true_eq_false, if_false]
  rfl

end

end Folksong
