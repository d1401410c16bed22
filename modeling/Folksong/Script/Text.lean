import Folksong.Conf.CommandLine
import Folksong.Script.Simulation

/-!
# Scripts in a text

The scanner and the engine together: a text whose directives are those of a script is accepted
exactly when the script comes to something, and the parse then leaves just the objects of the
script, with the registry that lists them.
-/

namespace Folksong

/-- The directives of a text: how each of them ends, and its words. -/
def textDirectives (text : List UInt8) : List (Status × List FsStr) :=
  (lexRecords text).1.map fun r => (r.2, r.1.map (wordToken text))

lemma textDirectives_isDirective (text : List UInt8) :
    ∀ d ∈ textDirectives text, d.1.isDirective := by
  intro d hd
  obtain ⟨r, hr, rfl⟩ := List.mem_map.mp hd
  exact lexRecords_isDirective text r hr

section

variable {μ κ H : Type} [DecidableEq μ] {env : Env μ κ H} {mode : ParseMode}

/-! ### The end of a parse -/

/-- The parse ends as its directives do. -/
inductive ParseEnds : Except (Exit μ κ H) (Conf μ κ H) → Verdict × Conf μ κ H → Prop where
  | accepted (c : Conf μ κ H) (left : List FsStr) : ParseEnds (.ok c) (.ok, c.taken .fileDone left)
  | rejected (c : Conf μ κ H) : ParseEnds (.error (.error c)) (.error, c)
  | declined (first : Bool) (c : Conf μ κ H) : ParseEnds (.error (.pass first c)) (.error, c)
  | undefined (c : Conf μ κ H) : ParseEnds (.error .undefined) (.undefined, c)

/-- What the scanner replies when it takes the directives `ds` and then comes to the end. -/
def fileReplies (ds : List (Status × List FsStr)) (left : List FsStr) : List Reply :=
  ds.map (fun d => .taken d.1 d.2) ++ [.taken .fileDone left]

/-- A turn of the loop on a directive. -/
lemma parseEnd_directive {io : ReadOutcome} {n : Nat} {f f' : FsFile} {c : Conf μ κ H} {st : Status}
    {tokens : FsArr FsStr} (hst : st.isDirective)
    (h : fsConfNextToken io f c.tokens = .ret st f' tokens) :
    parseEnd env io mode (n + 1) f c
      = match fsConfHandle env (c.take ⟨st, tokens⟩) st with
        | .ok c => parseEnd env io mode n f' c
        | .error .undefined => (.undefined, c.take ⟨st, tokens⟩)
        | .error (.error c) | .error (.pass _ c) => (.error, c) := by
  rw [parseEnd, parseTurn_directive env mode hst h]
  cases fsConfHandle env (c.take ⟨st, tokens⟩) st with
  | ok c => rfl
  | error e => cases e <;> rfl

/-- The loop handles the directives that the scanner delivers, up to the first that is not
accepted. -/
lemma parseEnd_ends {io : ReadOutcome} (hmode : mode ≠ .block) {left : List FsStr}
    {ds : List (Status × List FsStr)} (hdir : ∀ d ∈ ds, d.1.isDirective) :
    ∀ (n : Nat) (f : FsFile) (c : Conf μ κ H), tokenize io n f c.tokens = fileReplies ds left →
      ParseEnds (handleWords env c ds) (parseEnd env io mode n f c) := by
  induction ds with
  | nil =>
    intro n f c h
    cases n with
    | zero => cases h
    | succ n =>
      rw [tokenize] at h
      rw [parseEnd, parseTurn]
      cases hs : fsConfNextToken io f c.tokens with
      | undefined =>
        rw [hs] at h
        cases h
      | ret st f' tokens =>
        rw [hs] at h
        have htokens : tokens = c.tokens.refill tokens.toList := fsConfNextToken_tokens hs
        obtain ⟨hreply, -⟩ := List.cons.inj h
        obtain ⟨rfl, hleft⟩ := Reply.taken.inj hreply
        rw [hleft] at htokens
        subst htokens
        have hblock : (mode == .block) = false := by simpa using hmode
        simp only [hblock]
        exact .accepted c left
  | cons d ds ih =>
    intro n f c h
    obtain ⟨hd, hdirs⟩ := List.forall_mem_cons.mp hdir
    obtain ⟨st, ts⟩ := d
    cases n with
    | zero => cases h
    | succ n =>
      rw [tokenize] at h
      rw [handleWords_cons]
      cases hs : fsConfNextToken io f c.tokens with
      | undefined =>
        rw [hs] at h
        cases h
      | ret st' f' tokens =>
        rw [hs] at h
        have htokens : tokens = c.tokens.refill tokens.toList := fsConfNextToken_tokens hs
        obtain ⟨hreply, hrest⟩ := List.cons.inj h
        obtain ⟨hst, hts⟩ := Reply.taken.inj hreply
        dsimp only at hst hts hd ⊢
        subst hst
        rw [hts] at htokens
        rw [if_pos hd] at hrest
        rw [parseEnd_directive hd hs, htokens, ← Conf.taken]
        cases hc : fsConfHandle env (c.taken st' ts) st' with
        | ok c' =>
          have hsame : c'.tokens = tokens := (handle_tokens hd hc).trans htokens.symm
          exact ih hdirs n f' c' (by rw [hsame]; exact hrest)
        | error e =>
          cases e with
          | pass first c' => exact .declined first c'
          | error c' => exact .rejected c'
          | undefined => exact .undefined _

/-- No word of a file is cut by a refill of the buffer. -/
def ParseMode.Uncut (mode : ParseMode) (text : List UInt8) : Prop :=
  mode = .file → ∀ w ∈ lexWords text, w.InOneLoad

/-- The parse of a text handles its directives. -/
lemma Delivered.ends {text : List UInt8} {f : FsFile} (hf : Delivered text mode f)
    {io : ReadOutcome} (hio : ∀ off, io off = true) (huncut : mode.Uncut text) (c : Conf μ κ H) :
    ParseEnds (handleWords env c (textDirectives text))
      (parseEnd env io mode (f.remaining + 2) f c) := by
  have hmode : mode ≠ .block := by
    cases hf with
    | file | cmdline => decide
  have hbuf : ∀ behind, readAll io (FsFile.ofBuf (text ++ behind) text.length) c.tokens
      = fileReplies (textDirectives text) ((lexRecords text).2.map (wordToken text)) := by
    intro behind
    rw [readAll_ofBuf io (List.take_left' rfl), fileReplies, textDirectives, List.map_map]
    rfl
  have hreplies : readAll io f c.tokens
      = fileReplies (textDirectives text) ((lexRecords text).2.map (wordToken text)) := by
    cases hf with
    | file mem =>
      refine Eq.trans ?_ (hbuf [])
      exact (readAll_opened_iff_tokens hio text mem [] c.tokens c.tokens).mpr fun w hw =>
        (bufToken_loadBase_iff (lexWords_in hw)).mpr (huncut rfl w hw)
    | cmdline behind => exact hbuf behind
  exact parseEnd_ends hmode (textDirectives_isDirective text) _ _ _ hreplies

end

/-! ### What it leaves -/

/-- The engine holds the objects `h` and nothing else: no block is open, and every module that has
been used lists its objects. -/
structure Holds (c : Engine) (h : Heap) : Prop where
  heap : c.heap = h
  closed : c.stMod = []
  used : ∀ m, c.used m ↔ h.contexts m ≠ []
  ctxs : ∀ m, c.used m → ∃ a, c.ctxs m = .arr a ∧ a.contents = (h.contexts m).map some

/-- A parse comes to what its script comes to. -/
inductive Builds : Verdict × Engine → Except Fault Heap → Prop where
  | accepted {c h} : Holds c h → Builds (.ok, c) (.ok h)
  | rejected {c} : Builds (.error, c) (.error .rejected)
  | undefined {c} : Builds (.undefined, c) (.error .undefined)

lemma Sim.holds {env : Env ModId Callback Heap} {n : Nat} {c : Engine} {h : Heap}
    (hs : Sim env [] n c h) (left : List FsStr) : Holds (c.taken .fileDone left) h := by
  have hreg := hs.settled.registered
  refine ⟨hs.heap, ?_, fun m => ?_, fun m hm => ?_⟩
  · have hkept := hs.settled.inv.kept
    rw [Conf.Kept, List.forall₂_nil_right_iff] at hkept
    exact hkept
  · rw [← hs.listed]
    exact hreg.used m
  · obtain ⟨a, ha, hlist⟩ := hreg.ctxs m hm
    refine ⟨a, ha, ?_⟩
    rw [← hs.listed, ← hlist]
    exact eq_map_some_of_reduceOption (hs.owned.filled m a ha)

section

variable {mods : List (FsMod ModId Callback)} {lib : Lib} {unset : Heap → Callback → Bool}

/-- The parse of a text comes to what its script comes to. -/
lemma Delivered.builds (hmods : mods.Perm shippedMods)
    (hlib : ∀ (c : Engine) k, lib.uninitNull c k = unset c.heap k) (junk : Junk)
    {io : ReadOutcome} (hio : ∀ off, io off = true) {text : List UInt8} {mode : ParseMode}
    {f : FsFile} (hf : Delivered text mode f) (huncut : mode.Uncut text) {s : Script}
    (htext : textDirectives text = s.directives) (hplaced : s.Placed none)
    (hroomy : s.Roomy false 0) (tokens : FsArr FsStr) :
    Builds (parseEnd (shippedEnv mods lib junk) io mode (f.remaining + 2) f
        (Conf.start tokens ⟨[], []⟩))
      (s.eval lib unset .null ⟨[], []⟩) := by
  have hends : ParseEnds (handleWords (shippedEnv mods lib junk) (Conf.start tokens ⟨[], []⟩)
      (textDirectives text)) (parseEnd (shippedEnv mods lib junk) io mode (f.remaining + 2) f
        (Conf.start tokens ⟨[], []⟩)) := hf.ends hio huncut _
  have hsim := Sim.script hmods hlib s (sim_start (shippedEnv mods lib junk) tokens) hplaced
    hroomy (p := .null) fun b hb => by cases hb
  rw [htext] at hends
  generalize parseEnd (shippedEnv mods lib junk) io mode (f.remaining + 2) f
    (Conf.start tokens ⟨[], []⟩) = e at hends ⊢
  generalize handleWords (shippedEnv mods lib junk) (Conf.start tokens ⟨[], []⟩) s.directives = r,
    s.eval lib unset .null ⟨[], []⟩ = r' at hends hsim ⊢
  cases hsim with
  | ok hs =>
    cases hends with
    | accepted c left => exact .accepted (hs.holds left)
  | error he =>
    cases he with
    | rejected c =>
      cases hends with
      | rejected => exact .rejected
    | undefined =>
      cases hends with
      | undefined => exact .undefined

/-- How the parse of a script ends. -/
def verdictOf : Except Fault Heap → Verdict
  | .ok _ => .ok
  | .error .rejected => .error
  | .error .undefined => .undefined

end

/-- A word as the scanner delivers it. -/
def word (s : String) : FsStr := ⟨bytes s, (bytes s).length + 1⟩

/-- A timer with its command and its timeout, and an http block with a proxy and a publisher. -/
def mixedScript : Script :=
  .block .timerBlock ⟨word "timer", []⟩
    (.param .timerExec ⟨word "exec", [word "true"]⟩
      (.param .timerTimeout ⟨word "timeout", [word "5"]⟩ .nil)) []
    (.block .httpBlock ⟨word "http", []⟩
      (.param .httpHost ⟨word "host", [word "h"]⟩
        (.block .httpProxyBlock ⟨word "proxy", [word "/b"]⟩ .nil []
          (.block .httpKafkaBlock ⟨word "kafka", [word "/a"]⟩
            (.param .httpKafkaDefaultTopic ⟨word "default_topic", [word "t"]⟩ .nil) [] .nil)))
      [] .nil)

def mixedText : List UInt8 :=
  bytes "timer\x7bexec true;timeout 5;\x7dhttp\x7bhost h;proxy /b\x7b\x7d" ++
    bytes "kafka /a\x7bdefault_topic t;\x7d\x7d"

lemma directives_mixedScript : textDirectives mixedText = mixedScript.directives := by
  decide +kernel

lemma uncut_mixedText : ParseMode.file.Uncut mixedText := fun _ => by decide +kernel

lemma placed_mixedScript : mixedScript.Placed none := by decide

lemma roomy_mixedScript : mixedScript.Roomy false 0 := mixedScript.roomy_of_blocks (by decide)

/-- The parse of its text. -/
def mixedParse : Verdict × Engine :=
  parseEnd (shippedEnv shippedMods .succeeding .null) (fun _ => true) .file
    ((FsFile.opened mixedText []).remaining + 2) (FsFile.opened mixedText [])
    (Conf.start (fsAllocArr FsStr 3 tokensCapa_pos) ⟨[], []⟩)

end Folksong
