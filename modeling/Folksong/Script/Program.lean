import Folksong.Conf.Main
import Folksong.Script.Start

/-!
# What the program does with a script (`folksong.c`)

From the arguments to the status: `main` looks for a script where its first option says, without
the last byte of an argument of `-c`, and what it does from then on is what the meaning of the
script says. The byte of `conf.valid` that nobody has written matters for a script that is rejected
only.
-/

namespace Folksong

/-! ### Where the script is -/

namespace ConfSource

/-- The text that is parsed: `fs_str_set` leaves the last byte of an argument out. -/
def text (sur : Surroundings) : ConfSource → Option (List UInt8)
  | .cmdline arg => some arg.dropLast
  | .file name => sur.files name

def mode : ConfSource → ParseMode
  | .cmdline _ => .param
  | .file _ => .file

/-- The end of the parse, with the engine it leaves. -/
def parseEnd (env : Env ModId Callback Heap) (sur : Surroundings) : ConfSource → Verdict × Engine
  | .cmdline arg => fsConfParseCmdlineEnd env sur.io (fsStrSet arg)
      (Conf.start (fsAllocArr FsStr 3 tokensCapa_pos) ⟨[], []⟩)
  | .file name =>
    match sur.files name with
    | none => (.error, Conf.start (fsAllocArr FsStr 3 tokensCapa_pos) ⟨[], []⟩)
    | some content => fsConfParseEnd env sur.io content sur.mem
        (Conf.start (fsAllocArr FsStr 3 tokensCapa_pos) ⟨[], []⟩)

end ConfSource

/-- The arguments in front of the first option that `main` knows. -/
def unknownArgs : List (List UInt8) → List (List UInt8)
  | [] => []
  | arg :: args =>
    if [45, 104] <+: arg then []
    else if [45, 99] <+: arg then []
    else if [45, 102] <+: arg then []
    else arg :: unknownArgs args

/-- What `main` does behind the parse of its configuration, and what it returns. -/
def behindParse (valid : Bool) : Verdict → List MainEvent × Option Int
  | .ok => ([.gmodInited, .run], some 0)
  | .error => if valid then ([.run], some 0) else ([], some (-1))
  | .undefined => ([], none)

section

variable {mods : List (FsMod ModId Callback)} {lib : Lib} {unset : Heap → Callback → Bool}
  {junk : Junk} {sur : Surroundings} {source : ConfSource} {text : List UInt8} {s : Script}

/-! ### The options -/

/-- The first option decides. -/
lemma mainLoop_option {env : Env ModId Callback Heap} {args : List (List UInt8)}
    (hopt : optionOf args = some source) :
    mainLoop env sur ⟨[], []⟩ args =
      ⟨(unknownArgs args).map .invalidArgument ++ (confOption env sur ⟨[], []⟩ source).events,
        (confOption env sur ⟨[], []⟩ source).status⟩ := by
  induction args with
  | nil => cases hopt
  | cons arg args ih =>
    rw [optionOf] at hopt
    rw [mainLoop, unknownArgs]
    split_ifs at hopt ⊢
    · obtain ⟨_, hargs, rfl⟩ := Option.map_eq_some_iff.mp hopt
      rw [hargs]
      rfl
    · obtain ⟨_, hargs, rfl⟩ := Option.map_eq_some_iff.mp hopt
      rw [hargs]
      rfl
    · rw [ih hopt]
      rfl

lemma confOption_eq (env : Env ModId Callback Heap) (source : ConfSource) :
    confOption env sur ⟨[], []⟩ source =
      ⟨.gmodInit :: .parsed source (source.parse env sur ⟨[], []⟩) ::
          (behindParse sur.valid (source.parse env sur ⟨[], []⟩)).1,
        (behindParse sur.valid (source.parse env sur ⟨[], []⟩)).2⟩ := by
  rw [confOption]
  cases source.parse env sur ⟨[], []⟩ with
  | ok => rfl
  | error => rw [behindParse]; split_ifs <;> rfl
  | undefined => rfl

/-! ### The parse -/

lemma parse_eq_end (env : Env ModId Callback Heap) (source : ConfSource) :
    source.parse env sur ⟨[], []⟩ = (source.parseEnd env sur).1 := by
  cases source with
  | cmdline arg => exact (fsConfParseCmdline_end env sur.io _ _).1
  | file name =>
    rw [ConfSource.parse, ConfSource.parseEnd]
    cases sur.files name with
    | none => rfl
    | some content => exact (fsConfParse_end env sur.io _ _ _).1

/-- Nothing has been made yet. -/
lemma holds_start (tokens : FsArr FsStr) : Holds (Conf.start tokens ⟨[], []⟩) ⟨[], []⟩ where
  heap := rfl
  closed := rfl
  used _ := iff_of_false Bool.false_ne_true (not_not.mpr rfl)
  ctxs _ hused := absurd hused Bool.false_ne_true

lemma directives_eq_nil (h : s.directives = []) : s = .nil := by
  cases s with
  | nil => rfl
  | param k l rest => cases h
  | block k l body left rest => cases h

/-- A source is parsed as its text is. -/
lemma source_builds (hmods : mods.Perm shippedMods)
    (hlib : ∀ (c : Engine) k, lib.uninitNull c k = unset c.heap k)
    (hio : ∀ off, sur.io off = true) (hsource : source.text sur = some text)
    (huncut : source.mode.Uncut text) (htext : textDirectives text = s.directives)
    (hplaced : s.Placed none) (hroomy : s.Roomy false 0) :
    Builds (source.parseEnd (shippedEnv mods lib junk) sur) (s.eval lib unset .null ⟨[], []⟩) := by
  cases source with
  | file name =>
    have hfile : sur.files name = some text := hsource
    rw [ConfSource.parseEnd, hfile]
    exact (Delivered.file sur.mem).builds hmods hlib junk hio huncut htext hplaced hroomy _
  | cmdline arg =>
    obtain rfl := Option.some.inj hsource
    obtain ⟨behind, hbehind⟩ := fsStrSet_split arg
    rw [ConfSource.parseEnd, fsConfParseCmdlineEnd, fsStrSet_ahead, hbehind]
    split_ifs with hempty
    · -- an argument of one byte is not parsed at all
      rw [dropLast_of_fsStrEmpty hempty] at htext
      rw [directives_eq_nil htext.symm]
      exact .accepted (holds_start _)
    · exact (Delivered.cmdline behind).builds hmods hlib junk hio huncut htext hplaced hroomy _

lemma verdict_of_builds {r : Verdict × Engine} {e : Except Fault Heap} (h : Builds r e) :
    r.1 = verdictOf e := by
  cases h <;> rfl

end

/-- The script on the command line, with a byte behind it. -/
def mixedArg : List UInt8 := mixedText ++ bytes " "

end Folksong
